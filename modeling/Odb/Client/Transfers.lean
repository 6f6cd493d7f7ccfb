import Odb.Client.RegValues
import Odb.Server.SymbolRequests

/-!
# The sizes of registers in `get_regs` and `set_regs`

The caller declares the sizes of its buffers, and the VM has sizes of its own.

* `VMApi.logged`: a VM with a log of its calls of `set_reg`; `VMApi.RegFile`: what it does about
  registers is a function of a part of its state.
* `Transfer`: the arguments of a call; `Transfer.Readable`, `Transfer.Settable`: the sizes go together.
* `getRegs_respects`, `setRegs_respects`: for which sizes a call moves the bytes of the registers.
-/

namespace Odb

open Prog

/-- The buffers that `set_reg` got, each with its register. -/
abbrev SetLog := List (VmReg × Bytes)

/-- The VM with a log of its calls of `set_reg`. -/
def VMApi.logged {V : Type} (api : VMApi V) : VMApi (V × SetLog) where
  getVmInfos := unlogged api.getVmInfos
  getUpdateInfos := unlogged api.getUpdateInfos
  getReg idx infos valOnly := unlogged (api.getReg idx infos valOnly)
  setReg idx newVal s :=
    ((api.setReg idx newVal s.1).1, (api.setReg idx newVal s.1).2, s.2 ++ [(idx, newVal)])
  findRegId name := unlogged (api.findRegId name)
  readMem addr size := unlogged (api.readMem addr size)
  writeMem addr size buf := unlogged (api.writeMem addr size buf)
  getSymbols addr size := unlogged (api.getSymbols addr size)
  getSymbInfos idx := unlogged (api.getSymbInfos idx)
  findSymId name := unlogged (api.findSymId name)
  getCodeText addr := unlogged (api.getCodeText addr)

/-- What the VM does about registers depends on the part `view` of its state, which stays as it is
when the VM answers: the registers have the values `val`, and `set` sets them. -/
structure VMApi.RegFile {V S : Type} (api : VMApi V) (T : RegTable) (view : V → S)
    (val : S → VmReg → Bytes) (set : VmReg → Bytes → S → Except Bytes Unit × S) : Prop where
  answers : ∀ s, api.HasRegs T (fun vm => view vm = s) fun id v => v = val s id
  sets : ∀ id buf vm, ((api.setReg id buf vm).1, view (api.setReg id buf vm).2) = set id buf (view vm)

section Logged

variable {V S : Type} {api : VMApi V} {T : RegTable} {view : V → S} {val : S → VmReg → Bytes}
  {set : VmReg → Bytes → S → Except Bytes Unit × S}

/-- The log does not matter for the answers, and stays as it is. -/
theorem VMApi.RegFile.logged (hvm : api.RegFile T view val set) (s : S) (log : SetLog) :
    api.logged.HasRegs T (fun vm => view vm.1 = s ∧ vm.2 = log) fun _ _ => True where
  known infos h hd := by
    obtain ⟨vm', hget, hs⟩ := (hvm.answers s).known infos h.1 hd
    exact ⟨(vm', log), by simp only [VMApi.logged, VMApi.unlogged, hget, h.2], hs, rfl⟩
  unknown infos h hd := by
    obtain ⟨msg, vm', hget, hs⟩ := (hvm.answers s).unknown infos h.1 hd
    exact ⟨msg, (vm', log), by simp only [VMApi.logged, VMApi.unlogged, hget, h.2], hs, rfl⟩
  value old h hd hold := by
    obtain ⟨v, vm', hget, hlen, -, hs⟩ := (hvm.answers s).value old h.1 hd hold
    exact ⟨v, (vm', log), by simp only [VMApi.logged, VMApi.unlogged, hget, h.2], hlen, trivial, hs,
      rfl⟩
  found h hd := by
    obtain ⟨vm', hfind, hs⟩ := (hvm.answers s).found h.1 hd
    exact ⟨(vm', log), by simp only [VMApi.logged, VMApi.unlogged, hfind, h.2], hs, rfl⟩
  notFound h hd := by
    obtain ⟨msg, vm', hfind, hs⟩ := (hvm.answers s).notFound h.1 hd
    exact ⟨msg, (vm', log), by simp only [VMApi.logged, VMApi.unlogged, hfind, h.2], hs, rfl⟩

theorem VMApi.RegFile.hasRegs (hvm : api.RegFile T view val set) :
    api.logged.HasRegs T (fun _ => True) fun _ _ => True :=
  .ofAll (I := S × SetLog) (P := fun i vm => view vm.1 = i.1 ∧ vm.2 = i.2)
    (fun i => hvm.logged i.1 i.2) fun vm => ⟨(view vm.1, vm.2), rfl, rfl⟩

/-- What comes of setting rows one after the other, up to the first that the VM refuses. -/
structure SetAll (S : Type) where
  /-- The rows that the VM got. -/
  handed : SetLog
  /-- It took them all. -/
  all : Bool
  /-- Its state then. -/
  state : S

def setAll (set : VmReg → Bytes → S → Except Bytes Unit × S) : SetLog → S → SetAll S
  | [], s => ⟨[], true, s⟩
  | row :: rows, s =>
    match set row.1 row.2 s with
    | (.ok _, s) => { setAll set rows s with handed := row :: (setAll set rows s).handed }
    | (.error _, s) => ⟨[row], false, s⟩

/-- The debugger sets rows one after the other. -/
theorem setRows_logged (hvm : api.RegFile T view val set) (rows : SetLog) (db : Debugger (V × SetLog)) :
    ∃ r vm', (rows.forM fun row => Debugger.setReg api.logged row.1 row.2).on db =
        (r, { db with vm := (vm', db.vm.2 ++ (setAll set rows (view db.vm.1)).handed) }) ∧
      view vm' = (setAll set rows (view db.vm.1)).state ∧
      if (setAll set rows (view db.vm.1)).all then r = .ok () else ∃ msg, r = .error (.vmError msg) := by
  induction rows generalizing db with
  | nil =>
    refine ⟨.ok (), db.vm.1, ?_, rfl, rfl⟩
    simp only [setAll, List.append_nil]
    rfl
  | cons row rows ih =>
    show ∃ r vm', (Debugger.setReg api.logged row.1 row.2 >>= fun _ => rows.forM fun row =>
      Debugger.setReg api.logged row.1 row.2).on db = _ ∧ _
    have hset := hvm.sets row.1 row.2 db.vm.1
    rcases hcall : api.setReg row.1 row.2 db.vm.1 with ⟨msg | _, vm'⟩ <;> rw [hcall] at hset
    · have hrun : (Debugger.setReg api.logged row.1 row.2).on db =
          (.error (.vmError msg), { db with vm := (vm', db.vm.2 ++ [row]) }) := by
        unfold Debugger.setReg Debugger.callVM
        simp only [on_of, VMApi.logged, hcall]
        rfl
      rw [on_bind_error hrun]
      simp only [setAll, ← hset]
      exact ⟨_, vm', rfl, rfl, msg, rfl⟩
    · have hrun : (Debugger.setReg api.logged row.1 row.2).on db =
          (.ok (), { db with vm := (vm', db.vm.2 ++ [row]) }) := by
        unfold Debugger.setReg Debugger.callVM
        simp only [on_of, VMApi.logged, hcall]
        rfl
      rw [on_bind_ok hrun]
      obtain ⟨r, vm'', hrest, hview, hall⟩ := ih { db with vm := (vm', db.vm.2 ++ [row]) }
      simp only [setAll, ← hset]
      refine ⟨r, vm'', ?_, hview, hall⟩
      rw [hrest, List.append_assoc]
      rfl

end Logged

/-- What a `get_regs` or a `set_regs` is given: registers, and buffers with their sizes. -/
structure Transfer where
  ids : List VmReg
  bufs : List Bytes
  regsSize : List VmSize

namespace Transfer

variable (t : Transfer) (T : RegTable)

/-- `reg_size` of the register at `i`. -/
abbrev size (i : Nat) : Except Fault VmSize := DBClient.regSize t.regsSize t.ids.length i

/-- There is a size for every register or one for all, and the buffers have the declared sizes. -/
structure Declared : Prop where
  count : t.bufs.length = t.ids.length
  sizes : t.regsSize.length = t.ids.length ∨ t.regsSize[1]? = some 0
  rows : ∀ p ∈ t.ids.zipIdx, ∃ size buf, t.size p.2 = .ok size ∧ t.bufs[p.2]? = some buf ∧
    buf.length = size.toNat

/-- The VM does not have one of the registers, or they are not empty and no declared size is above
that of the register. -/
def Readable : Prop :=
  (∃ id ∈ t.ids, ¬ T.Has id) ∨
    ∀ p ∈ t.ids.zipIdx, T.size p.1 ≠ 0 ∧ ∀ size, t.size p.2 = .ok size → size ≤ T.size p.1

/-- The VM does not have one of the registers; or every buffer that it gets is as long as its
register, and if it takes them all the declared sizes are those of the registers, and if it refuses
one it has set none. -/
def Settable {S : Type} (val : S → VmReg → Bytes) (set : VmReg → Bytes → S → Except Bytes Unit × S)
    (s : S) : Prop :=
  (∃ id ∈ t.ids, ¬ T.Has id) ∨
    (∀ row ∈ (setAll set (t.ids.zip t.bufs) s).handed, (T.size row.1).toNat ≤ row.2.length) ∧
    if (setAll set (t.ids.zip t.bufs) s).all then
      ∀ p ∈ t.ids.zipIdx, t.size p.2 = .ok (T.size p.1)
    else val (setAll set (t.ids.zip t.bufs) s).state = val s

/-- The buffers have received as much as was declared of values of the registers. -/
def Copied (R : VmReg → Bytes → Prop) (bufs : List Bytes) : Prop :=
  List.Forall₂ (fun p row => ∃ n val buf, R p.1 val ∧ t.bufs[p.2]? = some buf ∧
    n ≤ val.length ∧ n ≤ buf.length ∧ row = val.take n ++ buf.drop n) t.ids.zipIdx bufs

end Transfer

namespace DBClient

variable {V : Type} {api : VMApi V} {T : RegTable} {w : World (Debugger V)} {t : Transfer}

/-- The values of the registers fit in one vector. -/
def Holds (T : RegTable) (ids : List VmReg) : Prop :=
  (ids.map fun id => (T.size id).toNat).sum ≤ maxBytes

theorem Holds.filter {ids : List VmReg} (h : Holds T ids) (p : VmReg → Bool) :
    ((ids.filter p).map fun id => (T.size id).toNat).sum ≤ maxBytes :=
  (List.filter_sublist.map _).sum_le_sum (by simp) |>.trans h

/-- A round of the loop of `get_regs`. -/
def copyRow {σ : Type} (outBufs : List Bytes) (regsSize : List VmSize) (n : Nat) (p : VmReg × Nat) :
    ClientM σ Bytes := do
  let size ← Prog.lift (regSize regsSize n p.2)
  let (_, reg) ← findReg p.1
  Prog.lift (assertThat (reg.val ≠ []))
  Prog.lift (do memcpy (← at' outBufs p.2) reg.val size.toNat)

section Get

variable {P : V → Prop} {R : VmReg → Bytes → Prop}

theorem copyRow_sized (hw : Ready T P (fun _ => True) R w) (ht : t.Declared) {p : VmReg × Nat}
    (hp : p ∈ t.ids.zipIdx) (hmem : p.1 ∈ w.client.regiIdxMap) :
    Outcome
      (fun row w' => w' = w ∧
        (T.size p.1 ≠ 0 ∧ ∀ size, t.size p.2 = .ok size → size ≤ T.size p.1) ∧
        ∃ n val buf, R p.1 val ∧ t.bufs[p.2]? = some buf ∧ n ≤ val.length ∧ n ≤ buf.length ∧
          row = val.take n ++ buf.drop n)
      (fun e w' => w' = w ∧ ¬ Caught e ∧ (w.client.cached p.1 = [] ∨
        ¬ ∀ size, t.size p.2 = .ok size → size ≤ T.size p.1))
      ((copyRow t.bufs t.regsSize t.ids.length p).on w) := by
  obtain ⟨size, buf, hsize, hbuf, hlen⟩ := ht.rows p hp
  obtain ⟨pos, inf, hrun, hpos, hinf, hidx⟩ := findReg_on hw.cache.byIdx hmem
  have hinfo := (hw.cache.infos inf (List.mem_of_getElem? hinf)).2
  rw [hidx] at hinfo
  have hall : (∀ s, t.size p.2 = .ok s → s ≤ T.size p.1) ↔ size ≤ T.size p.1 := by
    rw [hsize]
    exact ⟨fun h => h size rfl, fun h s hs => Except.ok.inj hs ▸ h⟩
  unfold copyRow
  rw [show regSize t.regsSize t.ids.length p.2 = .ok size from hsize, lift_ok, pure_bind,
    on_bind_ok hrun, hall, cached_of_pos hpos hinf]
  dsimp only
  by_cases hnil : inf.val = []
  · rw [assertThat, if_neg (not_not.mpr hnil)]
    exact ⟨rfl, not_false, .inl hnil⟩
  obtain ⟨-, hval, hR⟩ := hw.cache.vals pos inf hinf hnil
  have hreal : inf.val.length = (T.size p.1).toNat := by
    rw [hval, RegTable.size_eq hinfo]
    rfl
  rw [assertThat_pos hnil, lift_ok, pure_bind, at', hbuf, ok_bind, memcpy]
  by_cases hle : size ≤ T.size p.1
  · have hn : size.toNat ≤ inf.val.length := by
      rw [hreal]
      exact UInt64.le_iff_toNat_le.mp hle
    rw [if_pos ⟨hn, hlen.ge⟩]
    refine ⟨rfl, ⟨fun hzero => hnil ?_, hle⟩, size.toNat, inf.val, buf, hidx ▸ hR, rfl, hn, hlen.ge, rfl⟩
    rw [hzero] at hreal
    exact List.length_eq_zero_iff.mp hreal
  · rw [if_neg fun h => hle ?_]
    · exact ⟨rfl, not_false, .inr hle⟩
    · rw [UInt64.le_iff_toNat_le, ← hreal]
      exact h.1

variable (hvm : api.HasRegs T P R)
include hvm

/-- `get_regs` with any declared sizes: it returns, or throws because the VM does not have a register,
exactly if they are readable. -/
theorem getRegs_sized (hw : Ready T P (fun _ => True) R w) (ht : t.Declared)
    (hfits : Holds T t.ids) :
    Spec (· = w) (getRegs (VMSide.impl api) t.ids t.bufs t.regsSize)
      (fun bufs w' => t.Readable T ∧ t.Copied R bufs ∧ P w'.impl.vm)
      fun e w' => (t.Readable T ↔ Caught e) ∧ P w'.impl.vm := by
  rintro _ rfl
  unfold getRegs
  rw [on_bind_ok (assertState_on hw.stopped)]
  have hfetch := fetchRegValsById_yields hvm hw fun id (_ : id ∈ t.ids) => trivial
  refine Spec.bind (Spec.conseq hfetch (fun _ h => h) (fun _ _ h => h) ?_) (fun _ w₁ => ?_) _ rfl
  · rintro e w' ⟨hw', he⟩
    obtain ⟨hnot, he⟩ := he (hfits.filter _)
    exact ⟨iff_of_true (.inl (by simpa using hnot)) he, hw'.server.vm⟩
  rintro ⟨hw₁, hfetched, -⟩
  have hhas : ¬ ∃ id ∈ t.ids, ¬ T.Has id := by
    rintro ⟨id, hid, hnot⟩
    exact hnot (hw₁.cache.has (hfetched id hid).1)
  have hloop := Spec.mapM (I := (· = w₁)) (f := copyRow t.bufs t.regsSize t.ids.length)
    (E := fun e w' => w' = w₁ ∧ ¬ Caught e ∧ ¬ t.Readable T)
    (R := fun p row => (T.size p.1 ≠ 0 ∧ ∀ size, t.size p.2 = .ok size → size ≤ T.size p.1) ∧
      ∃ n val buf, R p.1 val ∧ t.bufs[p.2]? = some buf ∧ n ≤ val.length ∧ n ≤ buf.length ∧
        row = val.take n ++ buf.drop n) t.ids.zipIdx fun p hp => ?_
  · refine Spec.bind (Spec.conseq hloop (fun _ h => h) (fun _ _ h => h) ?_) (fun rows => ?_) w₁ rfl
    · rintro e w' ⟨rfl, hnot, hread⟩
      exact ⟨iff_of_false hread hnot, hw₁.server.vm⟩
    · rintro w' ⟨rfl, hrows⟩
      refine ⟨.inr fun p hp => ?_, ?_, hw₁.server.vm⟩
      · obtain ⟨row, -, hrow, -⟩ := forall₂_mem_left hrows hp
        exact hrow
      · rw [← ht.count, List.drop_length, List.append_nil]
        exact hrows.imp fun _ _ h => h.2
  · have hid : p.1 ∈ t.ids := List.fst_mem_of_mem_zipIdx hp
    obtain ⟨hmem, hval⟩ := hfetched p.1 hid
    intro s hs
    rw [hs]
    have := copyRow_sized hw₁ ht hp hmem
    rcases hrun : (copyRow t.bufs t.regsSize t.ids.length p).on w₁ with ⟨e | row, w'⟩ <;>
      rw [hrun] at this
    · obtain ⟨rfl, hnot, hbad⟩ := this
      refine ⟨rfl, hnot, fun hread => ?_⟩
      have hread := hread.resolve_left hhas
      rcases hbad with hnil | hbad
      · refine hval (fun id hid => ?_) hnil
        obtain ⟨i, hi⟩ := List.mem_iff_getElem?.mp hid
        exact (hread (id, i) (List.mem_zipIdx_iff_getElem?.mpr hi)).1
      · exact hbad (hread p hp).2
    · exact this

end Get

section Set

variable {Q : V → Prop} (hvm : api.HasRegs T (fun _ => True) fun _ _ => True)
include hvm

/-- A round of the loop of `set_regs`: only the right size passes its assertion. -/
theorem cacheSet_sized (hw : Ready T Q (fun _ => True) (fun _ _ => True) w) (ht : t.Declared)
    {p : VmReg × Nat} (hp : p ∈ t.ids.zipIdx) (hmem : p.1 ∈ w.client.regiIdxMap) (hfit : T.Fits p.1) :
    Outcome
      (fun _ w' => t.size p.2 = .ok (T.size p.1) ∧
        Ready T Q (fun _ => True) (fun _ _ => True) w' ∧
        w'.client.regiIdxMap = w.client.regiIdxMap)
      (fun e w' => t.size p.2 ≠ .ok (T.size p.1) ∧ ¬ Caught e ∧ Q w'.impl.vm)
      ((cacheSet t.ids.length t.bufs t.regsSize p).on w) := by
  obtain ⟨size, buf, hsize, hbuf, hlen⟩ := ht.rows p hp
  by_cases hown : size = T.size p.1
  · subst hown
    have hround := @cacheSet_spec _ api _ _ _ _ _ (tracks hvm) _ _ _ (fun _ => []) hw _ _ hmem _
      hsize hbuf hlen.ge
    rcases hrun : (cacheSet t.ids.length t.bufs t.regsSize p).on w with ⟨e | u, w'⟩ <;>
      rw [hrun] at hround
    · exact absurd hfit hround
    · exact ⟨hsize, hround⟩
  · obtain ⟨pos, inf, hrun, hpos, hinf, hidx⟩ := findReg_on hw.cache.byIdx hmem
    have hinfo := (hw.cache.infos inf (List.mem_of_getElem? hinf)).2
    rw [hidx] at hinfo
    unfold cacheSet
    rw [show regSize t.regsSize t.ids.length p.2 = .ok size from hsize, lift_ok, pure_bind,
      on_bind_ok hrun]
    dsimp only
    rw [assertThat, if_neg fun h => hown (h.trans (RegTable.size_eq hinfo).symm)]
    exact ⟨fun h => hown (Except.ok.inj (hsize.symm.trans h)), not_false, hw.server.vm⟩

/-- The whole loop. -/
theorem cacheSets_sized (hw : Ready T Q (fun _ => True) (fun _ _ => True) w) (ht : t.Declared)
    {ps : List (VmReg × Nat)}
    (hps : ∀ p ∈ ps, p ∈ t.ids.zipIdx ∧ p.1 ∈ w.client.regiIdxMap ∧ T.Fits p.1) :
    Outcome (fun _ w' => (∀ p ∈ ps, t.size p.2 = .ok (T.size p.1)) ∧ Q w'.impl.vm)
      (fun e w' => (¬ ∀ p ∈ ps, t.size p.2 = .ok (T.size p.1)) ∧ ¬ Caught e ∧ Q w'.impl.vm)
      ((ps.forM (cacheSet t.ids.length t.bufs t.regsSize)).on w) := by
  induction ps generalizing w with
  | nil => exact ⟨by simp, hw.server.vm⟩
  | cons p ps ih =>
    obtain ⟨hp, hmem, hfit⟩ := hps p (by simp)
    have hround := cacheSet_sized hvm hw ht hp hmem hfit
    show Outcome _ _ ((_ >>= fun _ => ps.forM _ : ClientM (Debugger V) Unit).on w)
    rcases hrun : (cacheSet t.ids.length t.bufs t.regsSize p).on w with ⟨e | u, w₁⟩ <;>
      rw [hrun] at hround
    · obtain ⟨hbad, hnot, hQ⟩ := hround
      rw [on_bind_error hrun]
      exact ⟨fun hall => hbad (hall p (by simp)), hnot, hQ⟩
    · obtain ⟨hown, hw₁, hmap⟩ := hround
      rw [on_bind_ok hrun]
      have := ih hw₁ fun q hq => hmap ▸ hps q (by simp [hq])
      rcases hrun' : (ps.forM (cacheSet t.ids.length t.bufs t.regsSize)).on w₁ with ⟨e | u', w'⟩ <;>
        rw [hrun'] at this
      · obtain ⟨hbad, hnot, hQ⟩ := this
        exact ⟨fun hall => hbad fun q hq => hall q (by simp [hq]), hnot, hQ⟩
      · exact ⟨List.forall_mem_cons.mpr ⟨hown, this.1⟩, this.2⟩

end Set

/-! ## The property, for a client in the process of the debugger -/

section Respects

variable {S : Type} {view : V → S} {val : S → VmReg → Bytes}
  {set : VmReg → Bytes → S → Except Bytes Unit × S}

/-- What comes of a call from `db` on: every buffer that `set_reg` got is as long as its register; and
the call returned, or it threw a `VMApi::Error` and no register has changed. -/
def Respects (T : RegTable) (view : V → S) (val : S → VmReg → Bytes) {α : Type}
    (db : Debugger (V × SetLog)) (r : Except Fault α) (db' : Debugger (V × SetLog)) : Prop :=
  (∃ rows, db'.vm.2 = db.vm.2 ++ rows ∧ ∀ row ∈ rows, (T.size row.1).toNat ≤ row.2.length) ∧
  match r with
  | .ok _ => True
  | .error (.vmError _) => val (view db'.vm.1) = val (view db.vm.1)
  | .error _ => False

/-- The buffers of the appended rows are those of the log. -/
theorem respects_rows {α : Type} {db db' : Debugger (V × SetLog)} {r : Except Fault α}
    {rows : SetLog} (hlog : db'.vm.2 = db.vm.2 ++ rows) :
    Respects T view val db r db' ↔ (∀ row ∈ rows, (T.size row.1).toNat ≤ row.2.length) ∧
      match r with
      | .ok _ => True
      | .error (.vmError _) => val (view db'.vm.1) = val (view db.vm.1)
      | .error _ => False := by
  refine and_congr_left fun _ => ⟨?_, fun h => ⟨rows, hlog, h⟩⟩
  rintro ⟨rows', hlog', h⟩
  obtain rfl := List.append_cancel_left (hlog.symm.trans hlog')
  exact h

theorem respects_same {α : Type} {db db' : Debugger (V × SetLog)} {r : Except Fault α}
    (hview : view db'.vm.1 = view db.vm.1) (hlog : db'.vm.2 = db.vm.2) :
    Respects T view val db r db' ↔ ∀ e, r = .error e → Caught e := by
  have hlog : db'.vm.2 = db.vm.2 ++ [] := by rw [hlog, List.append_nil]
  rw [respects_rows hlog]
  rcases r with (msg | _ | _ | _) | a <;> simp [hview, Caught]

variable {w : World (Debugger (V × SetLog))}

/-- Nothing is known of the values that the client has, but that they have the sizes. -/
theorem Sound.at_view (hw : Sound T w) :
    Ready T (fun vm => view vm.1 = view w.impl.vm.1 ∧ vm.2 = w.impl.vm.2) (fun _ => True)
      (fun _ _ => True) w :=
  ⟨hw.stopped, hw.server.with_vm ⟨rfl, rfl⟩, hw.cache⟩

variable (hvm : api.RegFile T view val set)
include hvm

theorem getRegs_respects (hw : Sound T w) (ht : t.Declared) (hfits : Holds T t.ids)
    {r : Except Fault (List Bytes)} {w' : World (Debugger (V × SetLog))}
    (h : (getRegs (VMSide.impl api.logged) t.ids t.bufs t.regsSize).on w = (r, w')) :
    Respects T view val w.impl r w'.impl ↔ t.Readable T := by
  have hspec := getRegs_sized (hvm.logged _ _) hw.at_view ht hfits w rfl
  rw [h] at hspec
  rcases r with e | bufs
  · obtain ⟨hread, hview, hlog⟩ := hspec
    rw [respects_same hview hlog, hread]
    exact ⟨fun h => h e rfl, fun h e' he => Except.error.inj he ▸ h⟩
  · obtain ⟨hread, -, hview, hlog⟩ := hspec
    rw [respects_same hview hlog]
    exact iff_of_true nofun hread

theorem setRegs_respects (hw : Sound T w) (ht : t.Declared) (hfits : Holds T t.ids)
    {r : Except Fault Unit} {w' : World (Debugger (V × SetLog))}
    (h : (setRegs (VMSide.impl api.logged) t.ids t.bufs t.regsSize).on w = (r, w')) :
    Respects T view val w.impl r w'.impl ↔ t.Settable T val set (view w.impl.vm.1) := by
  have hfit : ∀ id ∈ t.ids, T.Fits id := fun id hid => fits_of_sum hfits hid
  have hinfos := fetchRegInfosById_yields (hvm.logged _ _) hw.at_view
    (fun id (_ : id ∈ t.ids) => trivial) w rfl
  unfold setRegs at h
  rw [on_bind_ok (assertState_on hw.stopped)] at h
  rcases hrun : (fetchRegInfosById (VMSide.impl api.logged) t.ids).on w with ⟨e | u, w₁⟩ <;>
    rw [hrun] at hinfos
  · rw [on_bind_error hrun] at h
    obtain ⟨rfl, rfl⟩ := Prod.mk.inj h
    obtain ⟨hready, he⟩ := hinfos
    obtain ⟨hnot, he⟩ := he fun id hid _ => hfit id hid
    obtain ⟨hview, hlog⟩ := hready.server.vm
    rw [respects_same hview hlog]
    exact iff_of_true (fun e' he' => Except.error.inj he' ▸ he) (.inl (by simpa using hnot))
  obtain ⟨hw₁, ⟨hfetched, -⟩, -⟩ := hinfos
  have hids : ∀ id ∈ t.ids, id ∈ w₁.client.regiIdxMap := fun id hid => hfetched id (.inr hid)
  have hhas : ¬ ∃ id ∈ t.ids, ¬ T.Has id := by
    rintro ⟨id, hid, hnot⟩
    exact hnot (hw₁.cache.has (hids id hid))
  obtain ⟨hview, hlog⟩ := hw₁.server.vm
  have himpl : VMSide.impl api.logged (.setRegs t.ids t.bufs t.regsSize) =
      (t.ids.zip t.bufs).forM fun row => Debugger.setReg api.logged row.1 row.2 := by
    show VMSide.setRegs api.logged t.ids t.bufs = _
    unfold VMSide.setRegs
    rw [← ht.count, itemsAt_self, lift_ok, pure_bind]
  obtain ⟨r₁, vm', hset, hvm', hall⟩ := setRows_logged hvm (t.ids.zip t.bufs) w₁.impl
  rw [hview, hlog] at hset
  rw [hview] at hvm' hall
  rw [on_bind_ok hrun, call, himpl] at h
  rw [Transfer.Settable, or_iff_right hhas]
  split at hall
  · next hall' =>
    rw [if_pos hall']
    subst hall
    rw [on_bind_ok (on_zoom hset)] at h
    have hw₂ : Ready T (fun vm => vm = (vm', w.impl.vm.2 ++
        (setAll set (t.ids.zip t.bufs) (view w.impl.vm.1)).handed)) (fun _ => True)
        (fun _ _ => True) { w₁ with impl := { w₁.impl with vm := (vm', w.impl.vm.2 ++
          (setAll set (t.ids.zip t.bufs) (view w.impl.vm.1)).handed) } } :=
      ⟨hw₁.stopped, hw₁.server.with_vm rfl, hw₁.cache⟩
    have hcache := cacheSets_sized hvm.hasRegs hw₂ ht fun p (hp : p ∈ t.ids.zipIdx) =>
      have hid : p.1 ∈ t.ids := List.fst_mem_of_mem_zipIdx hp
      ⟨hp, hids p.1 hid, hfit p.1 hid⟩
    rw [show (t.ids.zipIdx.forM (cacheSet t.ids.length t.bufs t.regsSize)).on _ = (r, w') from h]
      at hcache
    rcases r with e | u
    · obtain ⟨hbad, hnot, hlast⟩ := hcache
      rw [iff_false_right fun h => hbad h.2, respects_rows (congrArg Prod.snd hlast)]
      rcases e with _ | _ | _ | _
      · exact absurd trivial hnot
      all_goals exact And.right
    · obtain ⟨hown, hlast⟩ := hcache
      rw [respects_rows (congrArg Prod.snd hlast), and_iff_left trivial, and_iff_left hown]
  · next hall' =>
    rw [if_neg hall']
    obtain ⟨msg, rfl⟩ := hall
    rw [on_bind_error (on_zoom hset)] at h
    obtain ⟨rfl, rfl⟩ := Prod.mk.inj h
    rw [respects_rows rfl, ← hvm']

end Respects

end DBClient

end Odb
