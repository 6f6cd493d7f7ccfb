import Odb.Server.AnyRequest
import Odb.Server.CallStack

/-!
# What a symbol query asks of the range map and of the VM

* `preloadCalls`: the calls that `_preload_symbols` makes, in order; a query makes them and nothing
  else that fails (`Call.exec_makes`).
* `VMApi.recorded`: a VM with a log of its calls of `get_symbols`, which are those of `preloadCalls`
  (`preload_recorded`).
* `Started.preloadCalls_inBounds_iff`: the calls of a query in memory stay in memory after every
  history if and only if its window does not wrap around.
* `Run.get_symbols_needed`: with the last 256 addresses out of memory, the VM is asked at most once,
  only for what is not loaded, and everything in the window is loaded after.
-/

namespace Odb

/-! ## A VM with a log -/

namespace VMApi

variable {V : Type}

/-- A callback that leaves the log as it is. -/
def unlogged {α L : Type} (f : V → Except Bytes α × V) (s : V × L) : Except Bytes α × V × L :=
  ((f s.1).1, (f s.1).2, s.2)

/-- The VM with the calls of `get_symbols` that it was given so far. -/
def recorded (api : VMApi V) : VMApi (V × List (VmPtr × VmSize)) where
  getVmInfos := unlogged api.getVmInfos
  getUpdateInfos := unlogged api.getUpdateInfos
  getReg idx infos valOnly := unlogged (api.getReg idx infos valOnly)
  setReg idx newVal := unlogged (api.setReg idx newVal)
  findRegId name := unlogged (api.findRegId name)
  readMem addr size := unlogged (api.readMem addr size)
  writeMem addr size buf := unlogged (api.writeMem addr size buf)
  getSymbols addr size s :=
    ((api.getSymbols addr size s.1).1, (api.getSymbols addr size s.1).2, s.2 ++ [(addr, size)])
  getSymbInfos idx := unlogged (api.getSymbInfos idx)
  findSymId name := unlogged (api.findSymId name)
  getCodeText addr := unlogged (api.getCodeText addr)

end VMApi

namespace Debugger

open Prog

/-! ## The calls of a query -/

/-- A call that `_preload_symbols` makes. -/
inductive PreloadCall where
  | rangeOf (key : VmPtr)
  | getSymbols (addr : VmPtr) (size : VmSize)
  | set (low high : VmPtr)
deriving DecidableEq, Repr

/-- The key is one of the map, the addresses are in memory, and the interval is none that wraps. -/
def PreloadCall.InBounds (ranges : RangeMap Int) (memorySize : VmSize) : PreloadCall → Prop
  | rangeOf key => ranges.minKey ≤ key ∧ key ≤ ranges.maxKey
  | getSymbols addr size => 1 ≤ size ∧ addr.toNat + size.toNat ≤ memorySize.toNat
  | set low high => low ≤ high

/-- The calls of `_preload_symbols` for the window `[addr, last]`, in order, up to the first that
fails an assertion. -/
def preloadCalls (ranges : RangeMap Int) (addr last : VmPtr) : List PreloadCall :=
  .rangeOf addr :: match ranges.rangeOf addr with
  | .error _ => []
  | .ok lowRange =>
    let addr := if lowRange.val = 1 then lowRange.high + 1 else addr
    if lowRange.val = 1 ∧ (addr = 0 ∨ last < addr) then []
    else .rangeOf last :: match ranges.rangeOf last with
    | .error _ => []
    | .ok highRange =>
      let last := if highRange.val = 1 then highRange.low - 1 else last
      if highRange.val = 1 ∧ (highRange.low = 0 ∨ last < addr) then []
      else [.getSymbols addr (last - addr + 1), .set addr last]

/-- The start and the size of the window that a symbol query loads, before it is clipped. -/
def Call.window : Call → Option (VmPtr × VmSize)
  | getSymbols addr size => some (addr, size)
  | getSymbolAt addr =>
    some (if addr < symLoadSize / 2 then 0 else addr - symLoadSize / 2, symLoadSize)
  | _ => none

/-- What a call asks of the range map and of the VM to preload symbols. -/
def Call.preloadCalls (k : Call) (db : Debugger V) : List PreloadCall :=
  match k.window, db.symsRanges with
  | some (addr, size), some ranges =>
    Debugger.preloadCalls ranges addr (windowLast db.infos.memorySize addr size)
  | _, _ => []

/-- A symbol query in memory. -/
def Call.InMemory (memorySize : VmSize) : Call → Prop
  | getSymbols addr size => addr < memorySize ∧ addr.toNat + size.toNat ≤ memorySize.toNat
  | getSymbolAt addr => addr < memorySize
  | _ => False

/-- The window of the query ends within the 64-bit addresses. -/
def Call.WindowFits : Call → Prop
  | getSymbols addr size => addr.toNat + max size.toNat 256 ≤ UInt64.size
  | getSymbolAt addr => addr.toNat + 128 ≤ UInt64.size
  | _ => True

/-- The addresses that a query loads: its enlarged window, clipped to memory. -/
def Call.Wants (memorySize : VmSize) (k : Call) (x : VmPtr) : Prop :=
  ∃ addr size, k.window = some (addr, size) ∧ addr ≤ x ∧
    x.toNat < addr.toNat + max size.toNat 256 ∧ x < memorySize

/-- Makes the calls, one after the other, and then loads the symbols of the last answer of the VM,
`syms` if there is none. The first call that fails ends it. -/
def makeCalls {V : Type} (api : VMApi V) (ranges : RangeMap Int) :
    List PreloadCall → List VmSym → DbM V Unit
  | [], syms => syms.forM (loadSymbol api)
  | .rangeOf key :: calls, syms => do
    let _ ← Prog.lift (ranges.rangeOf key)
    makeCalls api ranges calls syms
  | .getSymbols addr size :: calls, _ => do
    let syms ← callVM (api.getSymbols addr size)
    makeCalls api ranges calls syms
  | .set low high :: calls, syms => do
    let ranges ← Prog.lift (ranges.set low high 1)
    modify fun db => { db with symsRanges := some ranges }
    makeCalls api ranges calls syms

variable {V : Type} {api : VMApi V} {memorySize : VmSize}

/-- `_preload_symbols` makes these calls, in this order, up to the first that fails. -/
theorem preload_makes {db : Debugger V} {m : RangeMap Int} (hr : db.symsRanges = some m)
    (addr : VmPtr) (size : VmSize) :
    (preloadSymbols api addr size).on db =
      (makeCalls api m (preloadCalls m addr (windowLast db.infos.memorySize addr size)) []).on db := by
  rw [preload_on hr]
  generalize windowLast db.infos.memorySize addr size = last
  unfold trimLoaded preloadCalls
  rw [makeCalls]
  rcases hlow : m.rangeOf addr with e | r
  · rfl
  simp only [ok_bind]
  rw [on_bind_ok (on_lift _ _)]
  generalize (if r.val = 1 then r.high + 1 else addr) = a
  by_cases hall : r.val = 1 ∧ (a = 0 ∨ last < a)
  · rw [if_pos hall, if_pos hall]
    rfl
  rw [if_neg hall, if_neg hall, makeCalls]
  rcases hhigh : m.rangeOf last with e | r'
  · rfl
  simp only [ok_bind]
  rw [on_bind_ok (on_lift _ _)]
  generalize (if r'.val = 1 then r'.low - 1 else last) = l
  by_cases hall' : r'.val = 1 ∧ (r'.low = 0 ∨ l < a)
  · rw [if_pos hall', if_pos hall']
    rfl
  · rw [if_neg hall', if_neg hall']
    rfl

/-- A query makes the calls of its window, and nothing else of it fails. -/
theorem Call.exec_makes {k : Call} {db : Debugger V} {m : RangeMap Int}
    (hr : db.symsRanges = some m) (hw : k.window.isSome) :
    (k.exec api).on db = (makeCalls api m (k.preloadCalls db) []).on db := by
  have hrest {α : Type} (c : DbM V Unit) (f : Debugger V → α) :
      (discard (c >>= fun _ => get >>= fun db => pure (f db))).on db = c.on db := by
    show ((fun _ => ()) <$> (c >>= fun _ => get >>= fun db => pure (f db))).on db = c.on db
    rw [on_map]
    rcases hrun : c.on db with ⟨e | u, db'⟩
    · rw [on_bind_error hrun]
      rfl
    · rw [on_bind_ok hrun]
      rfl
  cases k with
  | getSymbols addr size =>
    simp only [Call.preloadCalls, Call.window, hr]
    rw [← preload_makes hr]
    exact hrest (preloadSymbols api addr size) fun db => symsIn db.symsPos addr (addr + size)
  | getSymbolAt addr =>
    simp only [Call.preloadCalls, Call.window, hr]
    rw [← preload_makes hr]
    exact hrest (preloadSymbolsAround api addr) fun db => db.symsPos[addr]?.getD vmSymNull
  | _ => cases hw

/-- What the calls are, by what is left to load. -/
theorem mem_preloadCalls {m : RangeMap Int} {addr last : VmPtr} {c : PreloadCall}
    (h : c ∈ preloadCalls m addr last) :
    c = .rangeOf addr ∨ c = .rangeOf last ∨ ∃ a l, trimLoaded m addr last = .ok (some (a, l)) ∧
      (c = .getSymbols a (l - a + 1) ∨ c = .set a l) := by
  unfold preloadCalls at h
  unfold trimLoaded
  rcases List.mem_cons.mp h with rfl | h
  · exact .inl rfl
  rcases hr : m.rangeOf addr with e | r <;> simp only [hr, ok_bind] at h ⊢
  · cases h
  generalize (if r.val = 1 then r.high + 1 else addr) = a at h ⊢
  by_cases hlow : r.val = 1 ∧ (a = 0 ∨ last < a)
  · rw [if_pos hlow] at h
    cases h
  rw [if_neg hlow] at h ⊢
  rcases List.mem_cons.mp h with rfl | h
  · exact .inr (.inl rfl)
  rcases hr' : m.rangeOf last with e | r' <;> simp only [hr', ok_bind] at h ⊢
  · cases h
  generalize (if r'.val = 1 then r'.low - 1 else last) = l at h ⊢
  by_cases hhigh : r'.val = 1 ∧ (r'.low = 0 ∨ l < a)
  · rw [if_pos hhigh] at h
    cases h
  rw [if_neg hhigh] at h ⊢
  exact .inr (.inr ⟨a, l, rfl, by simpa using h⟩)

/-- What is left to load is asked for, and recorded as loaded. -/
theorem preloadCalls_of_trim {m : RangeMap Int} {addr last a l : VmPtr}
    (h : trimLoaded m addr last = .ok (some (a, l))) :
    preloadCalls m addr last =
      [.rangeOf addr, .rangeOf last, .getSymbols a (l - a + 1), .set a l] := by
  unfold trimLoaded at h
  unfold preloadCalls
  rcases hr : m.rangeOf addr with e | r <;> simp only [hr, ok_bind] at h ⊢
  · cases h
  generalize (if r.val = 1 then r.high + 1 else addr) = a₀ at h ⊢
  by_cases hlow : r.val = 1 ∧ (a₀ = 0 ∨ last < a₀)
  · rw [if_pos hlow] at h
    cases h
  rw [if_neg hlow] at h ⊢
  rcases hr' : m.rangeOf last with e | r' <;> simp only [hr', ok_bind] at h ⊢
  · cases h
  generalize (if r'.val = 1 then r'.low - 1 else last) = l₀ at h ⊢
  by_cases hhigh : r'.val = 1 ∧ (r'.low = 0 ∨ l₀ < a₀)
  · rw [if_pos hhigh] at h
    cases h
  rw [if_neg hhigh] at h ⊢
  cases h
  rfl

/-! ## Queries in memory -/

theorem RunWhere.run {C : Debugger V → Event → Prop} {db₀ db : Debugger V} {es : List Event}
    (h : RunWhere api C db₀ es db) : Run api db₀ es db := by
  induction h with
  | start => exact .start
  | step _ _ hst ih => exact ih.step hst

/-- The VM infos of a run are those of its start. -/
theorem Run.infos {db₀ db : Debugger V} {es : List Event} (h : Run api db₀ es db) :
    db.infos = db₀.infos := by
  refine h.induction (P := fun _ c => c.infos = db₀.infos) rfl ?_ ?_
  · intro es c udp c' hc hu
    rw [(DbControl.update_breakpts hu).1, hc]
  · intro es c k hc
    rw [(k.samePlace c).infos, hc]

/-- The window of a query in memory begins there. -/
theorem Call.window_inMemory {k : Call} (hk : k.InMemory memorySize) :
    ∃ addr size, k.window = some (addr, size) ∧ addr < memorySize ∧
      (k.WindowFits ↔ addr.toNat + max size.toNat 256 ≤ UInt64.size) := by
  cases k with
  | getSymbols addr size => exact ⟨addr, size, rfl, hk.1, .rfl⟩
  | getSymbolAt addr =>
    have ha : addr < memorySize := hk
    have h128 : (symLoadSize / 2).toNat = 128 := rfl
    have h256 : symLoadSize.toNat = 256 := rfl
    refine ⟨_, _, rfl, lt_of_le_of_lt (around_spec addr).1 ha, ?_⟩
    show addr.toNat + 128 ≤ UInt64.size ↔ _
    rw [h256, max_self]
    have hlt := addr.toNat_lt
    split
    · next h =>
      rw [UInt64.lt_iff_toNat_lt, h128] at h
      rw [UInt64.toNat_zero]
      simp only [UInt64.size]
      omega
    · next h =>
      have hle := UInt64.le_iff_toNat_le.mp (not_lt.mp h)
      rw [UInt64.toNat_sub_of_le _ _ (not_lt.mp h), h128]
      omega
  | _ => exact hk.elim

/-- The calls for a window in memory that does not wrap around stay in memory. -/
theorem preloadCalls_inBounds {m : RangeMap Int} (hm : m.WF) (hmin : m.minKey = 0)
    (hmax : m.maxKey = memorySize - 1) {addr : VmPtr} {size : VmSize} (ha : addr < memorySize)
    (hend : addr.toNat + max size.toNat 256 ≤ UInt64.size) :
    ∀ c ∈ preloadCalls m addr (windowLast memorySize addr size), c.InBounds m memorySize := by
  have hmem : 0 < memorySize := lt_of_le_of_lt UInt64.zero_le ha
  have hin (k : VmPtr) (hk : k < memorySize) : m.minKey ≤ k ∧ k ≤ m.maxKey :=
    ⟨hmin ▸ UInt64.zero_le, (le_memorySize hmem hmax k).mpr hk⟩
  have hlast : windowLast memorySize addr size < memorySize :=
    (Word.le_sub_one_iff hmem _).mp (min_le_right _ _)
  have hw := le_windowLast hend ha (by omega)
  obtain ⟨w, htrim, hspec⟩ := trimLoaded_spec hm hmin (hin _ ha).2 (hin _ hlast).2
  intro c hc
  rcases mem_preloadCalls hc with rfl | rfl | ⟨a, l, htrim', hc⟩
  · exact hin _ ha
  · exact hin _ hlast
  rw [htrim] at htrim'
  cases htrim'
  obtain ⟨-, hal, hll, -⟩ := hspec.2 hw
  obtain ⟨hpos, -, hend'⟩ := request_in_memory hal (lt_of_le_of_lt hll hlast)
  rcases hc with rfl | rfl
  · exact ⟨UInt64.le_iff_toNat_le.mpr (UInt64.lt_iff_toNat_lt.mp hpos), hend'⟩
  · exact hal

/-- In every history, with any calls in it, a query in memory makes the calls of its window, and they
stay in memory, if and only if its window does not wrap around. -/
theorem Started.preloadCalls_inBounds_iff {db₀ : Debugger V} (hs : Started api db₀)
    (hm : db₀.infos.memorySize = memorySize) (C : Debugger V → Event → Prop) {k : Call}
    (hk : k.InMemory memorySize) :
    (∀ es db, RunWhere api C db₀ es db → ∀ m, db.symsRanges = some m →
        (k.exec api).on db = (makeCalls api m (k.preloadCalls db) []).on db ∧
          ∀ c ∈ k.preloadCalls db, c.InBounds m memorySize) ↔ k.WindowFits := by
  obtain ⟨addr, size, hwin, ha, hfits⟩ := k.window_inMemory hk
  have hmem : 0 < memorySize := lt_of_le_of_lt UInt64.zero_le ha
  have hcalls {db : Debugger V} (hinfos : db.infos = db₀.infos) {m : RangeMap Int}
      (hr : db.symsRanges = some m) :
      k.preloadCalls db = preloadCalls m addr (windowLast memorySize addr size) := by
    simp only [Call.preloadCalls, hwin, hr, hinfos, hm]
  rw [hfits]
  constructor
  · -- nothing is loaded at the start, and a window that wraps around is asked for as it is
    intro hall
    by_contra hend
    have hlt := windowLast_lt memorySize (not_le.mp hend)
    obtain ⟨-, -, -, hcache⟩ := hs.members
    have hr : db₀.symsRanges = some (RangeMap.new 0 (memorySize - 1) 0) := by
      rw [congrArg SymCache.symsRanges hcache, hm]
    have hset := (hall [] db₀ .start _ hr).2 (.set addr (windowLast memorySize addr size))
    rw [hcalls rfl hr, preloadCalls_of_trim (trimLoaded_new hmem ha (lt_trans hlt ha))] at hset
    exact absurd (hset (by simp)) (not_le.mpr hlt)
  · intro hend es db hrun m hr
    obtain ⟨⟨m', hr', hwf, hmin, hmax⟩, -⟩ := hrun.run.symsSized hs
    obtain rfl : m' = m := Option.some.inj (hr'.symm.trans hr)
    have hinfos := hrun.run.infos
    refine ⟨Call.exec_makes hr (by rw [hwin]; rfl), ?_⟩
    rw [hcalls hinfos hr]
    refine preloadCalls_inBounds hwf hmin (hmax.trans ?_) ha hend
    rw [cachePart, hinfos, hm]

/-- A query of the debugger of the scripted VM. -/
theorem Started.preloadCalls_inBounds_iff_first :
    (∀ es db, RunWhere (tableVM twoSyms.syms) (fun _ _ => True) scriptedDb es db →
        ∀ m, db.symsRanges = some m →
          ((Call.getSymbols 10 20).exec (tableVM twoSyms.syms)).on db =
              (makeCalls (tableVM twoSyms.syms) m ((Call.getSymbols 10 20).preloadCalls db) []).on db ∧
            ∀ c ∈ (Call.getSymbols 10 20).preloadCalls db, c.InBounds m 100) ↔
      (Call.getSymbols 10 20).WindowFits :=
  Started.preloadCalls_inBounds_iff ⟨⟨.ok, 4⟩, 0, rfl⟩ rfl _ ⟨by decide, by decide⟩

/-- A VM whose memory ends one byte below the last address. -/
def topVM : VMApi UpdateInfos :=
  { tableVM [] with getVmInfos := fun vm => (.ok { noInfos with memorySize := -1 }, vm) }

/-- The debugger of this VM. -/
def topDb : Debugger UpdateInfos := ((onInit topVM).on (new ⟨.ok, 4⟩ 0)).2

/-- A query of one byte in memory whose window wraps around: the VM is asked for addresses beyond
its memory, and an assertion of `set` fails. -/
theorem topDb_wraps :
    Started topVM topDb ∧ topDb.infos.memorySize = -1 ∧
      (Call.getSymbols (-100) 1).InMemory (-1) ∧
      (Call.getSymbols (-100) 1).preloadCalls topDb =
        [.rangeOf (-100), .rangeOf 155, .getSymbols (-100) 256, .set (-100) 155] ∧
      (∃ db', (getSymbols topVM (-100) 1).on topDb = (.error .assertFail, db')) ∧
      ∃ m, topDb.symsRanges = some m ∧
        ¬ (PreloadCall.getSymbols (-100) 256).InBounds m (-1) ∧
        ¬ (PreloadCall.set (-100) 155).InBounds m (-1) :=
  ⟨⟨⟨.ok, 4⟩, 0, rfl⟩, rfl, ⟨by decide, by decide⟩, rfl, ⟨_, rfl⟩, _, rfl,
    fun h => absurd h.2 (by decide), (by decide : ¬ (-100 : VmPtr) ≤ 155)⟩

/-! ## What the VM is asked -/

/-- The calls of `get_symbols` among those of a query. -/
def PreloadCall.request? : PreloadCall → Option (VmPtr × VmSize)
  | getSymbols addr size => some (addr, size)
  | _ => none

section Recorded

open VMApi (unlogged)

variable {α : Type} {db : Debugger (V × List (VmPtr × VmSize))}

theorem keeps_unlogged (f : V → Except Bytes α × V) :
    Keeps (fun db : Debugger (V × List (VmPtr × VmSize)) => db.vm.2) (callVM (unlogged f)) := by
  intro db
  unfold callVM
  rw [on_of]
  rfl

theorem keeps_loadSymbol_recorded (id : VmSym) :
    Keeps (fun db => db.vm.2) (loadSymbol api.recorded id) :=
  .bind .get fun _ => .ite (.ret _) (.bind (keeps_unlogged _) fun _ => .modify fun _ => rfl)

theorem keeps_loadSymbol_symsRanges {W : Type} (api : VMApi W) (id : VmSym) :
    Keeps (fun db => db.symsRanges) (loadSymbol api id) :=
  .bind .get fun _ => .ite (.ret _) (.bind (keeps_callVM (fun _ _ => rfl) _) fun _ =>
    .modify fun _ => rfl)

/-- A window is asked for once. -/
theorem loadWindow_recorded (m : RangeMap Int) (a l : VmPtr) :
    ((loadWindow api.recorded m a l).on db).2.vm.2 = db.vm.2 ++ [(a, l - a + 1)] := by
  have hrest (ids : List VmSym) : Keeps (fun db => db.vm.2) (do
      let ranges ← Prog.lift (m.set a l 1)
      modify fun db : Debugger (V × List (VmPtr × VmSize)) => { db with symsRanges := some ranges }
      ids.forM (loadSymbol api.recorded)) :=
    .bind (.lift _) fun _ => .bind (.modify fun _ => rfl) fun _ => .forM _ keeps_loadSymbol_recorded
  unfold loadWindow
  rcases hcall : api.getSymbols a (l - a + 1) db.vm.1 with ⟨msg | ids, vm'⟩
  · have hrun : (callVM (api.recorded.getSymbols a (l - a + 1))).on db =
        (.error (.vmError msg), { db with vm := (vm', db.vm.2 ++ [(a, l - a + 1)]) }) := by
      simp only [callVM, on_of, VMApi.recorded, hcall]
      rfl
    rw [on_bind_error hrun]
  · have hrun : (callVM (api.recorded.getSymbols a (l - a + 1))).on db =
        (.ok ids, { db with vm := (vm', db.vm.2 ++ [(a, l - a + 1)]) }) := by
      simp only [callVM, on_of, VMApi.recorded, hcall]
      rfl
    rw [on_bind_ok hrun]
    exact hrest ids _

/-- `_preload_symbols` asks the VM for what `preloadCalls` says, in that order. -/
theorem preload_recorded {m : RangeMap Int} (hr : db.symsRanges = some m) (addr : VmPtr)
    (size : VmSize) :
    ((preloadSymbols api.recorded addr size).on db).2.vm.2 = db.vm.2 ++
      (preloadCalls m addr (windowLast db.infos.memorySize addr size)).filterMap
        PreloadCall.request? := by
  have hnone (h : ∀ a l, trimLoaded m addr (windowLast db.infos.memorySize addr size) ≠
      .ok (some (a, l))) : (preloadCalls m addr (windowLast db.infos.memorySize addr size)).filterMap
        PreloadCall.request? = [] := by
    refine List.filterMap_eq_nil_iff.mpr fun c hc => ?_
    rcases mem_preloadCalls hc with rfl | rfl | ⟨a, l, htrim, -⟩
    · rfl
    · rfl
    · exact absurd htrim (h a l)
  rw [preload_on hr]
  rcases htrim : trimLoaded m addr (windowLast db.infos.memorySize addr size) with
    e | (_ | ⟨a, l⟩)
  · rw [hnone (by simp [htrim])]
    exact (List.append_nil _).symm
  · rw [hnone (by simp [htrim])]
    exact (List.append_nil _).symm
  · rw [preloadCalls_of_trim htrim]
    exact loadWindow_recorded m a l

end Recorded

/-- What a load that returns leaves recorded. -/
theorem loadWindow_symsRanges {m m' : RangeMap Int} {a l : VmPtr} (hset : m.set a l 1 = .ok m')
    {db db' : Debugger V} (h : (loadWindow api m a l).on db = (.ok (), db')) :
    db'.symsRanges = some m' := by
  obtain ⟨ids, db₁, -, h⟩ := bind_eq_ok.mp h
  rw [hset, on_bind_ok (on_lift _ _), on_bind_ok (on_modify _ _)] at h
  have hkeep := Keeps.forM ids (keeps_loadSymbol_symsRanges api)
    { db₁ with symsRanges := some m' }
  rw [h] at hkeep
  exact hkeep

/-- The ends of what is left to load are not loaded: the ranges of the map are maximal. -/
theorem trimLoaded_ends {m : RangeMap Int} (hm : m.WF) (hmin : m.minKey = 0) {addr last : VmPtr}
    (h1 : addr ≤ m.maxKey) (h2 : last ≤ m.maxKey) {a l : VmPtr}
    (h : trimLoaded m addr last = .ok (some (a, l))) :
    m.get a ≠ .ok 1 ∧ m.get l ≠ .ok 1 := by
  have h0 : ∀ k, m.minKey ≤ k := fun k => by rw [hmin]; exact UInt64.zero_le
  obtain ⟨pre, n, post, he, hr, hlow, hhigh⟩ := RangeMap.rangeOf_spec hm (h0 addr) h1
  obtain ⟨pre', n', post', he', hr', hlow', hhigh'⟩ := RangeMap.rangeOf_spec hm (h0 last) h2
  have hrun := RangeMap.isRun_mid hm he
  have hrun' := RangeMap.isRun_mid hm he'
  unfold trimLoaded at h
  rw [hr, ok_bind, hr'] at h
  simp only [ok_bind] at h
  obtain ⟨a₀, ha₀⟩ : ∃ a₀, (if n.val = 1 then m.endKey post + 1 else addr) = a₀ := ⟨_, rfl⟩
  obtain ⟨l₀, hl₀⟩ : ∃ l₀, (if n'.val = 1 then n'.begKey - 1 else last) = l₀ := ⟨_, rfl⟩
  rw [ha₀, hl₀] at h
  by_cases hnone : n.val = 1 ∧ (a₀ = 0 ∨ last < a₀)
  · rw [if_pos hnone] at h
    cases h
  by_cases hnone' : n'.val = 1 ∧ (n'.begKey = 0 ∨ l₀ < a₀)
  · rw [if_neg hnone, if_pos hnone'] at h
    cases h
  rw [if_neg hnone, if_neg hnone'] at h
  cases h
  constructor
  · by_cases hv : n.val = 1
    · -- the key after the run of `addr`
      rw [if_pos hv] at ha₀
      subst ha₀
      obtain ⟨hne, hle⟩ := not_or.mp fun h => hnone ⟨hv, h⟩
      rw [← hv]
      refine hrun.after (lt_of_lt_of_le ?_ (le_trans (not_lt.mp hle) h2))
      exact ((Word.succ_cases _).resolve_left fun h => hne h.1).2 _ |>.mpr le_rfl
    · rw [if_neg hv] at ha₀
      subst ha₀
      rw [hrun.get_eq addr hlow hhigh]
      exact fun h => hv (Except.ok.inj h)
  · by_cases hv : n'.val = 1
    · -- the key before the run of `last`
      rw [if_pos hv] at hl₀
      subst hl₀
      obtain ⟨hne, -⟩ := not_or.mp fun h => hnone' ⟨hv, h⟩
      rw [← hv]
      refine hrun'.before ?_
      rw [hmin]
      exact lt_of_le_of_ne UInt64.zero_le (Ne.symm hne)
    · rw [if_neg hv] at hl₀
      subst hl₀
      rw [hrun'.get_eq last hlow' hhigh']
      exact fun h => hv (Except.ok.inj h)

/-! ## The VM is asked for what is needed -/

/-- The end of a window that does not wrap around is its last address in memory. -/
theorem le_windowLast_iff (hmem : 0 < memorySize) {addr x : VmPtr} {size : VmSize}
    (hend : addr.toNat + max size.toNat 256 ≤ UInt64.size) :
    x ≤ windowLast memorySize addr size ↔
      x.toNat < addr.toNat + max size.toNat 256 ∧ x < memorySize := by
  refine ⟨fun h => ⟨?_, ?_⟩, fun h => le_windowLast hend h.2 h.1⟩
  · have hle := UInt64.le_iff_toNat_le.mp (le_trans h (min_le_left _ _))
    rw [UInt64.toNat_sub, UInt64.toNat_add, toNat_window, UInt64.toNat_one] at hle
    have hpos : 0 < max size.toNat 256 := by omega
    simp only [UInt64.size] at hend
    omega
  · exact (Word.le_sub_one_iff hmem x).mp (le_trans h (min_le_right _ _))

/-- A symbol query loads its window, whatever it returns. -/
theorem Call.exec_window {k : Call} {addr : VmPtr} {size : VmSize}
    (h : k.window = some (addr, size)) (db : Debugger V) :
    (k.exec api).on db = (preloadSymbols api addr size).on db := by
  have hdiscard {α : Type} (f : Debugger V → α) (addr : VmPtr) (size : VmSize) :
      (discard (preloadSymbols api addr size >>= fun _ => get >>= fun db => pure (f db)) :
        DbM V Unit).on db = (preloadSymbols api addr size).on db := by
    show (Function.const _ () <$> _ : DbM V Unit).on db = _
    rw [on_map]
    rcases hrun : (preloadSymbols api addr size).on db with ⟨e | u, db'⟩
    · rw [on_bind_error hrun]
      rfl
    · rw [on_bind_ok hrun]
      rfl
  cases k <;> cases h
  · exact hdiscard _ _ _
  · exact hdiscard _ _ _

/-- A symbol query whose end does not wrap around. -/
def Call.Queries (memorySize : VmSize) : Call → Prop
  | getSymbols addr size => addr < memorySize ∧ addr.toNat + size.toNat < UInt64.size
  | getSymbolAt _ => True
  | _ => False

theorem Call.window_queries (hmax : memorySize.toNat ≤ UInt64.size - 256) {k : Call}
    (hk : k.Queries memorySize) : ∃ addr size, k.window = some (addr, size) ∧
      (addr < memorySize → addr.toNat + max size.toNat 256 ≤ UInt64.size) := by
  have hsize : UInt64.size = 2 ^ 64 := rfl
  have h256 : symLoadSize.toNat = 256 := rfl
  cases k with
  | getSymbols addr size =>
    obtain ⟨ha, hend⟩ := hk
    rw [UInt64.lt_iff_toNat_lt] at ha
    exact ⟨addr, size, rfl, fun _ => by omega⟩
  | getSymbolAt addr =>
    refine ⟨_, _, rfl, fun ha => ?_⟩
    rw [UInt64.lt_iff_toNat_lt] at ha
    rw [h256, max_self]
    omega
  | _ => exact hk.elim

/-- A query of what is loaded returns without a call of the VM. -/
theorem Call.exec_of_loaded (hmem : 0 < memorySize) (hmax : memorySize.toNat ≤ UInt64.size - 256)
    {db : Debugger V} (hi : SymsSized db.cachePart) (hm : db.infos.memorySize = memorySize)
    {k : Call} (hk : k.Queries memorySize) (hload : ∀ x, k.Wants memorySize x → db.IsLoaded x) :
    ∃ r, (k.exec api).on db = (r, db) ∧ ((∃ x, k.Wants memorySize x) → r = .ok ()) := by
  obtain ⟨⟨m, hr, hwf, hmin, hmax'⟩, -⟩ := hi
  have hr : db.symsRanges = some m := hr
  have hmax' : m.maxKey = memorySize - 1 := hm ▸ hmax'
  obtain ⟨addr, size, hwin, hend⟩ := k.window_queries hmax hk
  rw [exec_window hwin, preload_on hr, hm]
  by_cases ha : addr < memorySize
  · have hlast : windowLast memorySize addr size < memorySize :=
      (Word.le_sub_one_iff hmem _).mp (min_le_right _ _)
    have h1 := (le_memorySize hmem hmax' _).mpr ha
    have h2 := (le_memorySize hmem hmax' _).mpr hlast
    obtain ⟨w, htrim, hspec⟩ := trimLoaded_spec hwf hmin h1 h2
    rcases w with _ | ⟨a, l⟩
    · rw [htrim]
      exact ⟨_, rfl, fun _ => rfl⟩
    · -- `a` is one of the addresses that are wanted
      obtain ⟨haa, hal, hll, -⟩ := hspec.2 (le_windowLast (hend ha) ha (by omega))
      obtain ⟨hlt, hin⟩ := (le_windowLast_iff hmem (hend ha)).mp (le_trans hal hll)
      obtain ⟨m', hr', hone⟩ := hload a ⟨addr, size, hwin, haa, hlt, hin⟩
      obtain rfl := Option.some.inj (hr.symm.trans hr')
      exact absurd hone (trimLoaded_ends hwf hmin h1 h2 htrim).1
  · have hbeyond : m.maxKey < addr := not_le.mp fun hle => ha ((le_memorySize hmem hmax' _).mp hle)
    rw [trimLoaded, RangeMap.rangeOf_beyond hbeyond]
    refine ⟨_, rfl, fun hx => ?_⟩
    obtain ⟨x, addr', size', hwin', hle, -, hin⟩ := hx
    obtain ⟨rfl, rfl⟩ := Prod.mk.inj (Option.some.inj (hwin.symm.trans hwin'))
    exact absurd (lt_of_le_of_lt hle hin) ha

/-- The addresses `[q.1, q.1 + q.2)` are in the window of `k` and have all of it that is not loaded;
neither the first nor the last of them is loaded. -/
structure Tight (memorySize : VmSize) (k : Call) (db : Debugger V) (q : VmPtr × VmSize) : Prop where
  inside : ∀ x, q.1 ≤ x → x.toNat < q.1.toNat + q.2.toNat → k.Wants memorySize x
  covers : ∀ x, k.Wants memorySize x → ¬ db.IsLoaded x →
    q.1 ≤ x ∧ x.toNat < q.1.toNat + q.2.toNat
  first : ¬ db.IsLoaded q.1
  last : ∃ l, l.toNat + 1 = q.1.toNat + q.2.toNat ∧ ¬ db.IsLoaded l

/-- A query of something that is not loaded asks for it once, and loads its window if it returns. -/
theorem Call.exec_of_missing (hmem : 0 < memorySize) (hmax : memorySize.toNat ≤ UInt64.size - 256)
    {db db' : Debugger (V × List (VmPtr × VmSize))} (hi : SymsSized db.cachePart)
    (hm : db.infos.memorySize = memorySize) {k : Call} (hk : k.Queries memorySize) {x : VmPtr}
    (hx : k.Wants memorySize x) (hmiss : ¬ db.IsLoaded x) {r : Except Fault Unit}
    (hrun : (k.exec api.recorded).on db = (r, db')) :
    ∃ q, db'.vm.2 = db.vm.2 ++ [q] ∧ Tight memorySize k db q ∧ Survived r ∧
      (r = .ok () → ∀ x, k.Wants memorySize x → db'.IsLoaded x) := by
  have hi' := hi
  obtain ⟨⟨m, hr, hwf, hmin, hmax'⟩, -⟩ := hi
  have hr : db.symsRanges = some m := hr
  have hmax' : m.maxKey = memorySize - 1 := hm ▸ hmax'
  obtain ⟨addr, size, hwin, hend⟩ := k.window_queries hmax hk
  rw [exec_window hwin] at hrun
  have hwants (x : VmPtr) : k.Wants memorySize x ↔ addr ≤ x ∧
      x.toNat < addr.toNat + max size.toNat 256 ∧ x < memorySize := by
    refine ⟨fun h => ?_, fun h => ⟨addr, size, hwin, h⟩⟩
    obtain ⟨addr', size', hwin', h⟩ := h
    obtain ⟨rfl, rfl⟩ := Prod.mk.inj (Option.some.inj (hwin.symm.trans hwin'))
    exact h
  have hloaded (x : VmPtr) : db.IsLoaded x ↔ m.get x = .ok 1 := by
    refine ⟨fun h => ?_, fun h => ⟨m, hr, h⟩⟩
    obtain ⟨m', hr', h⟩ := h
    exact Option.some.inj (hr.symm.trans hr') ▸ h
  obtain ⟨hax, hxlt, hxin⟩ := (hwants x).mp hx
  have ha := lt_of_le_of_lt hax hxin
  have hfit := hend ha
  have hlast : windowLast memorySize addr size < memorySize :=
    (Word.le_sub_one_iff hmem _).mp (min_le_right _ _)
  have h1 := (le_memorySize hmem hmax' _).mpr ha
  have h2 := (le_memorySize hmem hmax' _).mpr hlast
  have hwants' (x : VmPtr) : k.Wants memorySize x ↔
      addr ≤ x ∧ x ≤ windowLast memorySize addr size := by
    rw [hwants, le_windowLast_iff hmem hfit]
  obtain ⟨w, htrim, hspec⟩ := trimLoaded_spec hwf hmin h1 h2
  rcases w with _ | ⟨a, l⟩
  · exact absurd ((hloaded x).mpr (hspec x hax ((hwants' x).mp hx).2)) hmiss
  obtain ⟨haa, hal, hll, hrest⟩ := hspec.2 (le_windowLast hfit ha (by omega))
  obtain ⟨hfirst, hend'⟩ := trimLoaded_ends hwf hmin h1 h2 htrim
  obtain ⟨-, hsum, -⟩ := request_in_memory hal (lt_of_le_of_lt hll hlast)
  have hin (x : VmPtr) : a ≤ x ∧ x.toNat < a.toNat + (l - a + 1).toNat ↔ a ≤ x ∧ x ≤ l := by
    rw [hsum, UInt64.le_iff_toNat_le (a := x), Nat.lt_succ_iff]
  refine ⟨(a, l - a + 1), ?_, ⟨fun x hx hx' => ?_, fun x hx hx' => ?_, ?_, l, hsum.symm, ?_⟩, ?_, ?_⟩
  · have hlog := @preload_recorded _ api _ _ hr addr size
    rwa [hrun, hm, preloadCalls_of_trim htrim] at hlog
  · obtain ⟨hax, hxl⟩ := (hin x).mp ⟨hx, hx'⟩
    exact (hwants' x).mpr ⟨le_trans haa hax, le_trans hxl hll⟩
  · refine (hin x).mpr ?_
    obtain ⟨hax, hxl⟩ := (hwants' x).mp hx
    by_contra hout
    refine hx' ((hloaded x).mpr (hrest x hax hxl ?_))
    rwa [not_and_or, not_le, not_le] at hout
  · rwa [hloaded]
  · rwa [hloaded]
  · have hsafe := (@preload_safe_iff _ api.recorded _ hi' addr size).mpr
      ⟨hm ▸ (Word.le_sub_one_iff hmem addr).mpr ha, .inl hfit⟩
    rw [Safe, hrun] at hsafe
    rcases r with e | u
    · cases e <;> trivial
    · trivial
  · rintro rfl x hx
    rw [preload_on hr, hm, htrim] at hrun
    obtain ⟨m', hset, -, -, -, hget⟩ := RangeMap.get_set hwf 1 (hmin ▸ UInt64.zero_le) hal
      (le_trans ((le_memorySize hmem hmax' _).mpr (lt_of_le_of_lt hll hlast)) le_rfl)
    refine ⟨m', loadWindow_symsRanges hset hrun, ?_⟩
    obtain ⟨hax, hxl⟩ := (hwants' x).mp hx
    rw [hget x (hmin ▸ UInt64.zero_le) (le_trans hxl h2)]
    split
    · rfl
    · next hout =>
      refine hrest x hax hxl ?_
      rwa [not_and_or, not_le, not_le] at hout

/-- After every history, a symbol query asks the VM for symbols at most once, exactly if something of
its window is not loaded, and then for a tight interval around that. Nothing but an error of the VM
keeps a query of a window that is not empty from returning; then its window is loaded, and a query of
a window inside asks for nothing. -/
theorem Run.get_symbols_needed (hmem : 0 < memorySize)
    (hmax : memorySize.toNat ≤ UInt64.size - 256) {db₀ db : Debugger (V × List (VmPtr × VmSize))}
    {es : List Event} (hs : Started api.recorded db₀) (hm : db₀.infos.memorySize = memorySize)
    (h : Run api.recorded db₀ es db) {k : Call} (hk : k.Queries memorySize) :
    ∃ r db' asked, (k.exec api.recorded).on db = (r, db') ∧ db'.vm.2 = db.vm.2 ++ asked ∧
      asked.length ≤ 1 ∧ (asked ≠ [] ↔ ∃ x, k.Wants memorySize x ∧ ¬ db.IsLoaded x) ∧
      (∀ q ∈ asked, Tight memorySize k db q) ∧
      ((∃ x, k.Wants memorySize x) → Survived r) ∧
      (r = .ok () → (∀ x, k.Wants memorySize x → db'.IsLoaded x) ∧
        ∀ k' : Call, k'.Queries memorySize →
          (∀ x, k'.Wants memorySize x → k.Wants memorySize x) →
          ∃ r', (k'.exec api.recorded).on db' = (r', db') ∧
            ((∃ x, k'.Wants memorySize x) → r' = .ok ())) := by
  have hi := h.symsSized hs
  have hinfos : db.infos.memorySize = memorySize := by rw [h.infos, hm]
  rcases hrun : (k.exec api.recorded).on db with ⟨r, db'⟩
  -- what holds after a query that loaded its window
  have hafter (hok : r = .ok ()) (hload : ∀ x, k.Wants memorySize x → db'.IsLoaded x) (k' : Call)
      (hk' : k'.Queries memorySize) (hsub : ∀ x, k'.Wants memorySize x → k.Wants memorySize x) :
      ∃ r', (k'.exec api.recorded).on db' = (r', db') ∧
        ((∃ x, k'.Wants memorySize x) → r' = .ok ()) := by
    have h' := h.step (.call hrun (hok ▸ trivial))
    refine k'.exec_of_loaded hmem hmax (h'.symsSized hs) ?_ hk' fun x hx => hload x (hsub x hx)
    rw [h'.infos, hm]
  by_cases hall : ∀ x, k.Wants memorySize x → db.IsLoaded x
  · obtain ⟨r₁, hrun₁, hok⟩ := k.exec_of_loaded hmem hmax hi hinfos hk hall
    obtain ⟨rfl, rfl⟩ := Prod.mk.inj (hrun.symm.trans hrun₁)
    refine ⟨r, db', [], rfl, (List.append_nil _).symm, Nat.zero_le 1, ?_, by simp, fun hx => ?_,
      fun hr => ⟨hall, hafter hr hall⟩⟩
    · refine iff_of_false (fun h => h rfl) fun hx => ?_
      obtain ⟨x, hx, hmiss⟩ := hx
      exact hmiss (hall x hx)
    · rw [hok hx]
      trivial
  · rw [not_forall] at hall
    obtain ⟨x, hx⟩ := hall
    rw [Classical.not_imp] at hx
    obtain ⟨q, hlog, htight, hsv, hload⟩ := k.exec_of_missing hmem hmax hi hinfos hk hx.1 hx.2 hrun
    refine ⟨r, db', [q], rfl, hlog, Nat.le_refl 1, iff_of_true (by simp) ⟨x, hx⟩, ?_, fun _ => hsv,
      fun hr => ⟨hload hr, hafter hr (hload hr)⟩⟩
    intro q' hq'
    rwa [List.mem_singleton.mp hq']

/-- The debugger of the scripted VM, with a log. -/
def recordedDb : Debugger (UpdateInfos × List (VmPtr × VmSize)) :=
  ((onInit (tableVM twoSyms.syms).recorded).on (new (⟨.ok, 4⟩, []) 0)).2

theorem recordedDb_started : Started (tableVM twoSyms.syms).recorded recordedDb :=
  ⟨(⟨.ok, 4⟩, []), 0, rfl⟩

/-- After a query of what follows 50, one from 10 on asks for the addresses up to 49, and one from 12 on
then for nothing. -/
theorem Run.get_symbols_needed_second :
    ∃ db db', Run (tableVM twoSyms.syms).recorded recordedDb [.call (.getSymbols 50 10)] db ∧
      ((Call.getSymbols 10 20).exec (tableVM twoSyms.syms).recorded).on db = (.ok (), db') ∧
      db.vm.2 = [(50, 50)] ∧ db'.vm.2 = [(50, 50), (10, 40)] ∧
      Tight 100 (.getSymbols 10 20) db (10, 40) ∧
      (∀ x, (Call.getSymbols 10 20).Wants 100 x → db'.IsLoaded x) ∧
      ((Call.getSymbols 12 5).exec (tableVM twoSyms.syms).recorded).on db' = (.ok (), db') := by
  have hfirst : Run (tableVM twoSyms.syms).recorded recordedDb [.call (.getSymbols 50 10)]
      (((Call.getSymbols 50 10).exec (tableVM twoSyms.syms).recorded).on recordedDb).2 :=
    @Run.step _ _ _ [] _ _ _ .start (.call (r := .ok ()) rfl trivial)
  have hinside (x : VmPtr) (hx : (Call.getSymbols 12 5).Wants 100 x) :
      (Call.getSymbols 10 20).Wants 100 x := by
    obtain ⟨addr, size, hw, hle, -, hmem⟩ := hx
    obtain ⟨rfl, rfl⟩ := Prod.mk.inj (Option.some.inj hw)
    exact ⟨10, 20, rfl, le_trans (by decide) hle,
      (UInt64.lt_iff_toNat_lt.mp hmem).trans (by decide), hmem⟩
  obtain ⟨r, db', asked, hrun, hlog, -, -, htight, -, hafter⟩ :=
    Run.get_symbols_needed (k := .getSymbols 10 20) (by decide : (0 : VmSize) < 100) (by decide)
      recordedDb_started (show recordedDb.infos.memorySize = 100 from rfl) hfirst
      ⟨by decide, by decide⟩
  obtain ⟨rfl, rfl⟩ := Prod.mk.inj hrun
  have hasked : [(50, 50)] ++ [(10, 40)] = [(50, 50)] ++ asked := hlog
  obtain rfl := List.append_cancel_left hasked
  obtain ⟨hloaded, hlater⟩ := hafter rfl
  obtain ⟨r', hrun', hr'⟩ := hlater (.getSymbols 12 5) ⟨by decide, by decide⟩ hinside
  obtain rfl := hr' ⟨12, 12, 5, rfl, by decide, by decide, by decide⟩
  exact ⟨_, _, hfirst, rfl, rfl, rfl, htight _ (List.mem_singleton.mpr rfl), hloaded, hrun'⟩

end Debugger

end Odb
