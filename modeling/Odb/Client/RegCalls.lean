import Mathlib.Logic.Function.Basic
import Odb.Client.RegCache

/-!
# The calls of `DBClient` about registers

* `SizedArgs`: the arguments a caller may pass with values of registers.
* `getRegsInfos_yields`, `findRegsIds_yields`, `getRegs_yields`: exactly when each call returns, and
  what.
* `setRegs_spec`: the VM and the cache take the same values.
-/

namespace Odb

open Prog

namespace DBClient

variable {V : Type} {api : VMApi V} {T : RegTable} {L : VmReg → Prop} {w : World (Debugger V)}

theorem assertState_on {σ : Type} {w : World σ} {state : DBClientState}
    (h : w.client.state = state) : (assertState state : ClientM σ Unit).on w = (.ok (), w) := by
  unfold assertState
  rw [on_bind_ok (on_get w), assertThat_pos h]
  rfl

/-- The announced size of every register is its own, and its buffer is as long. -/
def SizedArgs (T : RegTable) (ids : List VmReg) (bufs : List Bytes) (regsSize : List VmSize) : Prop :=
  ∀ p ∈ ids.zipIdx, ∃ size buf, regSize regsSize ids.length p.2 = .ok size ∧
    bufs[p.2]? = some buf ∧ size.toNat ≤ buf.length ∧ (T.Has p.1 → size = T.size p.1)

/-- A loop whose rounds only look at the client. -/
theorem readAll {P : V → Prop} {R : VmReg → Bytes → Prop} {α β : Type} {q : Prop}
    (hw : Ready T P L R w) (xs : List α) {f : α → ClientM (Debugger V) β} {S : α → β → Prop}
    (hf : ∀ x ∈ xs, Yields (· = w) (· = w) Caught q True (f x) fun y _ => S x y) :
    Yields (· = w) (Ready T P L R) Caught q True (xs.mapM f) fun ys _ => List.Forall₂ S xs ys := by
  refine ((Yields.mapM xs hf).congr (fun h => h) fun _ => by simp).conseq (fun _ hs => ?_)
    fun _ _ _ h => h
  rw [hs]
  exact hw

section Queries

variable {P : V → Prop} {R : VmReg → Bytes → Prop} (hvm : api.HasRegs T P R)
include hvm

theorem getRegsInfos_yields (hw : Ready T P L R w) {ids : List VmReg} {outInfos : List RegInfos}
    (hout : ids.length ≤ outInfos.length) (hL : ∀ id ∈ ids, L id) :
    Yields (· = w) (Ready T P L R) Caught (∀ id ∈ ids, id ∉ w.client.regiIdxMap → T.Fits id)
      (∀ id ∈ ids, T.Has id) (getRegsInfos (VMSide.impl api) ids outInfos) fun infos _ =>
        ∃ items, infos = items ++ outInfos.drop ids.length ∧ List.Forall₂ T.IsInfos ids items := by
  rintro _ rfl
  unfold getRegsInfos
  rw [on_bind_ok (assertState_on hw.stopped)]
  refine (fetchRegInfosById_yields hvm hw hL).andThen ?_ _ rfl
  rintro - - w' ⟨hw', hfetched, -⟩
  rw [Debugger.itemsAt_take hout, lift_ok, pure_bind]
  refine (readAll hw' (S := T.IsInfos) ids fun id hid => ?_).andReturn
    (fun items s hs hitems => ⟨_, s, rfl, hs, items, rfl, hitems⟩) _ rfl
  rintro _ rfl
  obtain ⟨pos, inf, hrun, -, hinf, hidx⟩ := findReg_on hw'.cache.byIdx (hfetched id (.inr hid))
  rw [on_bind_ok hrun]
  have hinfo := (hw'.cache.infos inf (List.mem_of_getElem? hinf)).2
  exact ⟨rfl, ⟨hidx, hidx ▸ hinfo⟩, fun _ => trivial⟩

theorem findRegsIds_yields (hw : Ready T P L R w) {names : List CStr} {outIds : List VmReg}
    (hout : names.length ≤ outIds.length)
    (hL : ∀ name ∈ names, ∀ id, T.find name.1 = some id → L id) :
    Yields (· = w) (Ready T P L R) Caught
      (∀ name ∈ names, T.Owned L name.1 ∧
        (name.1 ∉ w.client.regiNameMap → ∀ id, T.find name.1 = some id → T.Fits id))
      (∀ name ∈ names, T.Finds name.1) (findRegsIds (VMSide.impl api) names outIds) fun ids _ =>
        ∃ items, ids = items ++ outIds.drop names.length ∧
          List.Forall₂ (fun name id => T.Knows L name.1 → T.find name.1 = some id) names items := by
  rintro _ rfl
  unfold findRegsIds
  rw [on_bind_ok (assertState_on hw.stopped)]
  refine (fetchRegInfosByName_yields hvm hw hL).andThen ?_ _ rfl
  rintro - - w' ⟨hw', hfetched⟩
  rw [Debugger.itemsAt_take hout, lift_ok, pure_bind]
  refine (readAll hw' (S := fun name id => T.Knows L name.1 → T.find name.1 = some id) names
    fun name hname => ?_).andReturn
      (fun items s hs hitems => ⟨_, s, rfl, hs, items, rfl, hitems⟩) _ rfl
  intro s hs
  subst s
  by_cases hmem : name.1 ∈ w'.client.regiNameMap
  · obtain ⟨inf, hinf, hrun, hkey⟩ := findRegName_on hw'.cache hmem
    obtain ⟨hLid, hinfo⟩ := hw'.cache.infos inf hinf
    rw [on_bind_ok hrun]
    exact ⟨rfl, fun hknow => hknow inf.idx inf.desc hLid hinfo hkey, fun _ => trivial⟩
  · rw [on_bind_error (findRegName_missing hmem)]
    exact ⟨rfl, fun hq => absurd (hfetched name hname (hq name hname).1) hmem⟩

/-- The buffers receive values of the registers. -/
theorem getRegs_yields (hw : Ready T P L R w) {ids : List VmReg} {outBufs : List Bytes}
    {regsSize : List VmSize} (hargs : SizedArgs T ids outBufs regsSize) (hL : ∀ id ∈ ids, L id) :
    Yields (· = w) (Ready T P L R) Caught (ValuesFit T w.client ids) (∀ id ∈ ids, T.Has id)
      (getRegs (VMSide.impl api) ids outBufs regsSize) fun bufs _ =>
        ∃ rows, bufs = rows ++ outBufs.drop ids.length ∧ List.Forall₂ (fun p row =>
          ∃ val buf, R p.1 val ∧ outBufs[p.2]? = some buf ∧ val.length = (T.size p.1).toNat ∧
            row = val ++ buf.drop val.length) ids.zipIdx rows := by
  rintro _ rfl
  unfold getRegs
  rw [on_bind_ok (assertState_on hw.stopped)]
  have hfetch := fetchRegValsById_yields hvm hw hL
  refine (hfetch.congr ValuesFit.total fun _ => .rfl).andThen ?_ _ rfl
  rintro - - w' ⟨hw', hfetched⟩
  have hhas : ∀ id ∈ ids, T.Has id := fun id hid => hw'.cache.has (hfetched id hid).1
  refine (readAll hw' ids.zipIdx fun p hp => ?_).andReturn
    (fun rows s hs hrows => ⟨_, s, rfl, hs, rows, rfl, hrows⟩) _ rfl
  obtain ⟨id, i⟩ := p
  have hid : id ∈ ids := List.fst_mem_of_mem_zipIdx hp
  obtain ⟨size, buf, hsz, hbuf, hle, hown⟩ := hargs (id, i) hp
  obtain ⟨hmem, hval⟩ := hfetched id hid
  obtain ⟨pos, inf, hrun, hpos, hinf, hidx⟩ := findReg_on hw'.cache.byIdx hmem
  have hinfo := (hw'.cache.infos inf (List.mem_of_getElem? hinf)).2
  rw [hidx] at hinfo
  obtain rfl := hown (hw'.cache.has hmem)
  rw [cached_of_pos hpos hinf] at hval
  rintro _ rfl
  simp only [hsz, lift_ok, pure_bind]
  rw [on_bind_ok hrun]
  by_cases hnil : inf.val = []
  · rw [assertThat, if_neg (not_not.mpr hnil)]
    exact ⟨rfl, fun hq => absurd hnil (hval fun id hid => hq.nonempty id hid (hhas id hid))⟩
  obtain ⟨-, hlen, hR⟩ := hw'.cache.vals pos inf hinf hnil
  have hlen : inf.val.length = (T.size id).toNat := by rw [hlen, RegTable.size_eq hinfo]; rfl
  have hcopy : memcpy buf inf.val (T.size id).toNat = .ok (inf.val ++ buf.drop inf.val.length) := by
    rw [← hlen] at hle ⊢
    rw [memcpy, if_pos ⟨le_refl _, hle⟩, List.take_length]
  have hbuf : outBufs[i]? = some buf := hbuf
  rw [assertThat_pos hnil, lift_ok, pure_bind, at', hbuf, ok_bind, hcopy]
  exact ⟨rfl, ⟨inf.val, buf, hidx ▸ hR, rfl, hlen, rfl⟩, fun _ => trivial⟩

end Queries

/-! ## Setting registers -/

/-- Every register with its buffer. -/
def rowsOf (ids : List VmReg) (bufs : List Bytes) : List (VmReg × Bytes) :=
  ids.zipIdx.map fun p => (p.1, bufs[p.2]?.getD [])

theorem SizedArgs.count {ids : List VmReg} {bufs : List Bytes} {regsSize : List VmSize}
    (h : SizedArgs T ids bufs regsSize) : ids.length ≤ bufs.length := by
  rcases Nat.eq_zero_or_pos ids.length with hzero | hpos
  · omega
  · have hlast : (ids[ids.length - 1], ids.length - 1) ∈ ids.zipIdx := by
      rw [List.mem_zipIdx_iff_getElem?, List.getElem?_eq_getElem]
    obtain ⟨-, buf, -, hbuf, -⟩ := h _ hlast
    have := (List.getElem?_eq_some_iff.mp hbuf).1
    simp only at this
    omega

theorem zip_eq_rowsOf {ids : List VmReg} {bufs : List Bytes} (h : ids.length ≤ bufs.length) :
    ids.zip (bufs.take ids.length) = rowsOf ids bufs := by
  refine List.ext_getElem (by simp [rowsOf, h]) fun i h₁ h₂ => ?_
  have hi : i < ids.length := by simpa [rowsOf] using h₂
  have hb : i < bufs.length := by omega
  simp [rowsOf, List.getElem?_eq_getElem hb]

/-- What a round of `set_regs` gets of a register that the VM has. -/
theorem SizedArgs.round {ids : List VmReg} {bufs : List Bytes} {regsSize : List VmSize}
    (h : SizedArgs T ids bufs regsSize) {p : VmReg × Nat} (hp : p ∈ ids.zipIdx) (hhas : T.Has p.1) :
    regSize regsSize ids.length p.2 = .ok (T.size p.1) ∧
      ∃ buf, bufs[p.2]? = some buf ∧ (T.size p.1).toNat ≤ buf.length := by
  obtain ⟨size, buf, hsize, hbuf, hle, hown⟩ := h p hp
  obtain rfl := hown hhas
  exact ⟨hsize, buf, hbuf, hle⟩

theorem SizedArgs.rows {ids : List VmReg} {bufs : List Bytes} {regsSize : List VmSize}
    (h : SizedArgs T ids bufs regsSize) (hhas : ∀ id ∈ ids, T.Has id) :
    ∀ row ∈ rowsOf ids bufs, T.Has row.1 ∧ (T.size row.1).toNat ≤ row.2.length := by
  refine List.forall_mem_map.mpr fun p hp => ?_
  have hid : p.1 ∈ ids := List.fst_mem_of_mem_zipIdx hp
  obtain ⟨-, buf, hbuf, hle⟩ := h.round hp (hhas p.1 hid)
  rw [hbuf]
  exact ⟨hhas p.1 hid, hle⟩

/-- The call of the implementation sets the rows. -/
theorem SizedArgs.setRegs_eq {ids : List VmReg} {bufs : List Bytes} {regsSize : List VmSize}
    (h : SizedArgs T ids bufs regsSize) :
    VMSide.impl api (.setRegs ids bufs regsSize) =
      (rowsOf ids bufs).forM fun row => Debugger.setReg api row.1 row.2 := by
  show VMSide.setRegs api ids bufs = _
  unfold VMSide.setRegs
  rw [Debugger.itemsAt_take h.count, lift_ok, pure_bind, zip_eq_rowsOf h.count]

/-- A round of the loop at the end of `set_regs`, which updates the cache. -/
def cacheSet {σ : Type} (n : Nat) (inBufs : List Bytes) (regsSize : List VmSize)
    (p : VmReg × Nat) : ClientM σ Unit := do
  let size ← Prog.lift (regSize regsSize n p.2)
  let (pos, reg) ← findReg p.1
  Prog.lift (assertThat (size = reg.size))
  let buf ← Prog.lift (at' inBufs p.2)
  let val ← Prog.lift (resize maxBytes reg.val size.toNat 0)
  let val ← Prog.lift (memcpy val buf size.toNat)
  modifyClient (·.setVal pos val)

section Set

variable {P : (VmReg → Bytes) → V → Prop} {R : (VmReg → Bytes) → VmReg → Bytes → Prop}
  (hvm : api.TracksRegs T P R) {Q : V → Prop} {inBufs : List Bytes} {regsSize : List VmSize}
include hvm

theorem cacheSet_spec {cur : VmReg → Bytes} (hw : Ready T Q L (R cur) w) {n : Nat} {p : VmReg × Nat}
    (hmem : p.1 ∈ w.client.regiIdxMap) {buf : Bytes}
    (hsize : regSize regsSize n p.2 = .ok (T.size p.1)) (hbuf : inBufs[p.2]? = some buf)
    (hle : (T.size p.1).toNat ≤ buf.length) :
    Outcome (fun _ w' => Ready T Q L
        (R (Function.update cur p.1 (buf.take (T.size p.1).toNat))) w' ∧
        w'.client.regiIdxMap = w.client.regiIdxMap)
      (fun _ _ => ¬ T.Fits p.1) ((cacheSet n inBufs regsSize p).on w) := by
  obtain ⟨pos, inf, hrun, hpos, hinf, hidx⟩ := findReg_on hw.cache.byIdx hmem
  have hinfo := (hw.cache.infos inf (List.mem_of_getElem? hinf)).2
  rw [hidx] at hinfo
  have hsz : T.size p.1 = inf.size := RegTable.size_eq hinfo
  have hset : Ready T Q L (R (Function.update cur p.1 (buf.take (T.size p.1).toNat)))
      { w with client := w.client.setVal pos (buf.take (T.size p.1).toNat) } := by
    refine ⟨hw.stopped, hw.server, hw.cache.setVal hpos hinf ?_ (hvm.hit cur _ _) (hvm.miss cur _ _)⟩
    rw [List.length_take, hsz]
    exact min_eq_left (hsz ▸ hle)
  unfold cacheSet
  rw [hsize, lift_ok, pure_bind, on_bind_ok hrun]
  dsimp only
  rw [assertThat_pos hsz, lift_ok, pure_bind, at', hbuf, lift_ok, pure_bind]
  by_cases hmax : (T.size p.1).toNat ≤ maxBytes
  · obtain ⟨val, hval, hlen⟩ := resize_ok hmax inf.val 0
    have hcopy : memcpy val buf (T.size p.1).toNat = .ok (buf.take (T.size p.1).toNat) := by
      rw [memcpy, if_pos ⟨hle, hlen.ge⟩, List.drop_of_length_le hlen.le, List.append_nil]
    rw [hval, lift_ok, pure_bind, hcopy]
    exact ⟨hset, rfl⟩
  · rw [resize, if_neg hmax]
    intro hfit
    rw [hsz] at hmax
    exact hmax (hfit inf.desc hinfo)

/-- The whole loop. -/
theorem cacheSets_spec {cur : VmReg → Bytes} (hw : Ready T Q L (R cur) w) {n : Nat}
    {ps : List (VmReg × Nat)}
    (hps : ∀ p ∈ ps, p.1 ∈ w.client.regiIdxMap ∧ regSize regsSize n p.2 = .ok (T.size p.1) ∧
      ∃ buf, inBufs[p.2]? = some buf ∧ (T.size p.1).toNat ≤ buf.length) :
    Outcome (fun _ w' => Ready T Q L (R (T.store cur (ps.map fun p => (p.1, inBufs[p.2]?.getD []))))
        w') (fun _ _ => ¬ ∀ p ∈ ps, T.Fits p.1)
      ((ps.forM (cacheSet n inBufs regsSize)).on w) := by
  induction ps generalizing cur w with
  | nil => exact hw
  | cons p ps ih =>
    obtain ⟨hmem, hsize, buf, hbuf, hle⟩ := hps p (by simp)
    have hround := cacheSet_spec hvm hw hmem hsize hbuf hle
    show Outcome _ _ ((_ >>= fun _ => ps.forM _ : ClientM (Debugger V) Unit).on w)
    rcases hrun : (cacheSet n inBufs regsSize p).on w with ⟨e | u, w₁⟩ <;> rw [hrun] at hround
    · rw [on_bind_error hrun]
      exact fun hall => hround (hall p (by simp))
    · obtain ⟨hw₁, hmap⟩ := hround
      rw [on_bind_ok hrun, List.map_cons, RegTable.store, List.foldl_cons, hbuf]
      have := ih hw₁ fun q hq => hmap ▸ hps q (by simp [hq])
      rcases hrun' : (ps.forM (cacheSet n inBufs regsSize)).on w₁ with ⟨e | u', w'⟩ <;>
        rw [hrun'] at this
      · exact fun hall => this fun q hq => hall q (by simp [hq])
      · exact this

omit hvm in
/-- What the cache holds does not depend on the VM. -/
theorem Ready.forget {P₁ : V → Prop} {R₁ : VmReg → Bytes → Prop} (h : Ready T P₁ L R₁ w) :
    Ready T (fun _ => True) L R₁ w := ⟨h.stopped, h.server.with_vm trivial, h.cache⟩

/-- If `set_regs` returns, the VM and the cache have taken the values. If the registers fit in
vectors, it throws only if the VM does not have one of them, or refuses to set one. -/
theorem setRegs_spec (cur : VmReg → Bytes) (hw : Ready T (P cur) L (R cur) w) {ids : List VmReg}
    (hargs : SizedArgs T ids inBufs regsSize) (hL : ∀ id ∈ ids, L id) :
    Spec (· = w) (setRegs (VMSide.impl api) ids inBufs regsSize)
      (fun _ w' => (∀ id ∈ ids, T.Has id) ∧ Ready T (P (T.store cur (rowsOf ids inBufs))) L
        (R (T.store cur (rowsOf ids inBufs))) w')
      fun e w' => (∀ id ∈ ids, T.Fits id) → Caught e ∧
        ((∀ id ∈ ids, T.Has id) → api.Refuses (rowsOf ids inBufs) e) ∧
        Ready T (fun _ => True) L (R cur) w' := by
  rintro _ rfl
  unfold setRegs
  rw [on_bind_ok (assertState_on hw.stopped)]
  have hinfos := fetchRegInfosById_yields (hvm.answers cur) hw hL
  refine Spec.bind (Spec.conseq hinfos (fun _ h => h) (fun _ _ h => h) ?_) (fun _ w₁ => ?_) _ rfl
  · rintro e w' ⟨hready, he⟩ hfit
    obtain ⟨hnot, he⟩ := he fun id hid _ => hfit id hid
    exact ⟨he, fun hall => absurd hall hnot, hready.forget⟩
  rintro ⟨hw₁, ⟨hfetched, -⟩, -⟩
  have hids : ∀ id ∈ ids, id ∈ w₁.client.regiIdxMap := fun id hid => hfetched id (.inr hid)
  have hhas : ∀ id ∈ ids, T.Has id := fun id hid => hw₁.cache.has (hids id hid)
  have hset := VMSide.setRows_spec (L := L) hvm (hargs.rows hhas) cur w₁.impl hw₁.server
  rw [call, hargs.setRegs_eq]
  rcases hrun : ((rowsOf ids inBufs).forM fun row => Debugger.setReg api row.1 row.2).on w₁.impl
    with ⟨e | u, db⟩ <;> rw [hrun] at hset
  · obtain ⟨hrefuse, hdb⟩ := hset
    rw [on_bind_error (on_zoom hrun)]
    refine fun _ => ⟨?_, fun _ => hrefuse, hw₁.stopped, hdb, hw₁.cache⟩
    obtain ⟨_, -, _, _, _, -, rfl⟩ := hrefuse
    trivial
  · rw [on_bind_ok (on_zoom hrun)]
    have hw₂ : Ready T (P (T.store cur (rowsOf ids inBufs))) L (R cur) { w₁ with impl := db } :=
      ⟨hw₁.stopped, hset, hw₁.cache⟩
    have hcache := cacheSets_spec hvm hw₂ fun p (hp : p ∈ ids.zipIdx) =>
      have hid : p.1 ∈ ids := List.fst_mem_of_mem_zipIdx hp
      ⟨hids p.1 hid, hargs.round hp (hhas p.1 hid)⟩
    show Outcome _ _ ((ids.zipIdx.forM (cacheSet ids.length inBufs regsSize)).on _)
    rcases hrun' : (ids.zipIdx.forM (cacheSet ids.length inBufs regsSize)).on { w₁ with impl := db }
      with ⟨e | u', w'⟩ <;> rw [hrun'] at hcache
    · have hcache : ¬ ∀ p ∈ ids.zipIdx, T.Fits p.1 := hcache
      exact fun hfit => (hcache fun p hp => hfit p.1 (List.fst_mem_of_mem_zipIdx hp)).elim
    · exact ⟨hhas, hcache⟩

end Set

end DBClient

end Odb
