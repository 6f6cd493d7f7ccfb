import Odb.Client.RegRuns

/-!
# The values in the client's cache

A VM that stores the values of its registers, and a client that may have some of them in its cache.

* `VMApi.Stores`: registers change only when they are set, and only those that the VM accepts.
* `Coherent`: every value in the cache is the current one; kept by all calls but a failing `set_regs`.
* `setRegs_truthful_iff`: whether `get_regs` gives current values after `set_regs` threw.
-/

namespace Odb

open Prog

/-- The registers of the VM have the values `values`: it gives them, whatever it is asked for; a
register that is set takes its value, and one that is not accepted changes nothing. -/
structure VMApi.Stores {V : Type} (api : VMApi V) (T : RegTable) (values : V → VmReg → Bytes) :
    Prop where
  answers : ∀ cur, api.HasRegs T (fun vm => values vm = cur) fun id val => val = cur id
  set : ∀ {id buf vm vm'}, T.Has id → (T.size id).toNat ≤ buf.length →
    api.setReg id buf vm = (.ok (), vm') →
      values vm' = Function.update (values vm) id (buf.take (T.size id).toNat)
  refused : ∀ {id buf vm msg vm'}, T.Has id → (T.size id).toNat ≤ buf.length →
    api.setReg id buf vm = (.error msg, vm') → values vm' = values vm

theorem VMApi.Stores.length {V : Type} {api : VMApi V} {T : RegTable} {values : V → VmReg → Bytes}
    (hvm : api.Stores T values) {vm : V} {id : VmReg} (hhas : T.Has id) :
    (values vm id).length = (T.size id).toNat := by
  obtain ⟨d, hd⟩ := Option.isSome_iff_exists.mp hhas
  obtain ⟨val, -, -, hlen, rfl, -⟩ :=
    (hvm.answers (values vm)).value (List.replicate d.size.toNat 0) rfl hd (List.length_replicate)
  rw [hlen, RegTable.size, hd]
  rfl

theorem VMApi.Stores.hasRegs {V : Type} {api : VMApi V} {T : RegTable} {values : V → VmReg → Bytes}
    (hvm : api.Stores T values) : api.HasRegs T (fun _ => True) fun _ _ => True :=
  .ofAll hvm.answers fun vm => ⟨values vm, rfl⟩

theorem VMApi.Stores.tracks {V : Type} {api : VMApi V} {T : RegTable} {values : V → VmReg → Bytes}
    (hvm : api.Stores T values) :
    api.TracksRegs T (fun cur vm => values vm = cur) fun cur id val => val = cur id where
  answers := hvm.answers
  set hcur hhas hlen hset := by rw [hvm.set hhas hlen hset, hcur]
  hit cur id val := (Function.update_self id val cur).symm
  miss cur id val id' val' hne h := by rw [Function.update_of_ne hne, h]

namespace DBClient

variable {V α : Type} (api : VMApi V) (T : RegTable) (values : V → VmReg → Bytes)

/-- The program is stopped, both sides have cached answers of the VM, and every value in the cache of
the client is the current one. -/
def Coherent (w : World (Debugger V)) : Prop :=
  Ready T (fun vm => values vm = values w.impl.vm) (fun _ => True)
    (fun id val => val = values w.impl.vm id) w

def RegCall.IsSet : {α : Type} → RegCall α → Prop
  | _, setRegs _ _ _ => True
  | _, findRegsIds _ _ | _, getRegsInfos _ _ | _, getRegs _ _ _ => False

/-- What goes on from `w₀`: calls about registers, whatever each ends with, but no `set_regs` that
throws; and whatever leaves the client and the registers alone. -/
inductive Quiet (w₀ : World (Debugger V)) : World (Debugger V) → Prop where
  | start : Quiet w₀ w₀
  | call {w w' : World (Debugger V)} {α : Type} {r : Except Fault α} (k : RegCall α) :
      Quiet w₀ w → k.Args T → (k.exec api).on w = (r, w') → (k.IsSet → ∃ a, r = .ok a) → Quiet w₀ w'
  | other {w w' : World (Debugger V)} : Quiet w₀ w → w'.client = w.client →
      w'.impl.mapRegs = w.impl.mapRegs → w'.impl.smapRegs = w.impl.smapRegs →
      values w'.impl.vm = values w.impl.vm → Quiet w₀ w'

/-- The buffers have received the values `cur` of the registers. -/
def Gives (cur : VmReg → Bytes) (ids : List VmReg) (outBufs bufs : List Bytes) : Prop :=
  ∃ rows, bufs = rows ++ outBufs.drop ids.length ∧
    List.Forall₂ (fun p row => ∃ buf, outBufs[p.2]? = some buf ∧
      row = cur p.1 ++ buf.drop (cur p.1).length) ids.zipIdx rows

/-- A `get_regs` for registers of the VM returns, and if it returns it gives the current values. -/
def GetsCurrent (w : World (Debugger V)) (ids : List VmReg) (outBufs : List Bytes)
    (regsSize : List VmSize) : Prop :=
  (ValuesFit T w.client ids → (∀ id ∈ ids, T.Has id) →
    ∃ bufs w', (getRegs (VMSide.impl api) ids outBufs regsSize).on w = (.ok bufs, w')) ∧
  ∀ bufs w', (getRegs (VMSide.impl api) ids outBufs regsSize).on w = (.ok bufs, w') →
    Gives (values w.impl.vm) ids outBufs bufs

/-- So does every `get_regs` from now on, until the program is resumed. -/
def Truthful (w₀ : World (Debugger V)) : Prop :=
  ∀ w, Quiet api T values w₀ w → ∀ ids outBufs regsSize, SizedArgs T ids outBufs regsSize →
    GetsCurrent api T values w ids outBufs regsSize

variable {api T values} {w w' : World (Debugger V)} {cur : VmReg → Bytes}

/-! ## Coherent caches -/

theorem Ready.coherent (h : Ready T (fun vm => values vm = cur) (fun _ => True)
    (fun id val => val = cur id) w) : Coherent T values w := by
  have hcur := h.server.vm
  subst hcur
  exact h

section Coherent

variable (hvm : api.Stores T values)
include hvm

theorem Connected.coherent (h : Connected api w) : Coherent T values w := by
  obtain ⟨db₀, es, db, udp, hs, hrun, hconnect, hstopped⟩ := h
  obtain ⟨-, r, db', hcall, rfl⟩ := connect_ok.mp hconnect
  obtain ⟨rfl, -⟩ := VMSide.connect_ok hcall
  exact ⟨hstopped, (hrun.ofTable hvm.hasRegs hs).with_vm rfl, (cacheOf_new udp).with _ _ _⟩

theorem Coherent.call (h : Coherent T values w) {r : Except Fault α} (k : RegCall α)
    (hargs : k.Args T) (hrun : (k.exec api).on w = (r, w')) (hset : k.IsSet → ∃ a, r = .ok a) :
    Coherent T values w' := by
  have hanswers := hvm.answers (values w.impl.vm)
  have hkeeps (hspec : Spec (· = w) (k.exec api)
      (fun _ => Ready T (fun vm => values vm = values w.impl.vm) (fun _ => True)
        fun id val => val = values w.impl.vm id)
      fun _ => Ready T (fun vm => values vm = values w.impl.vm) (fun _ => True)
        fun id val => val = values w.impl.vm id) : Coherent T values w' := by
    have hw := hspec w rfl
    rw [hrun] at hw
    rcases r with e | a
    · exact Ready.coherent hw
    · exact Ready.coherent hw
  cases k with
  | findRegsIds names outIds =>
    exact hkeeps (findRegsIds_yields hanswers h hargs fun _ _ _ _ => trivial).keeps
  | getRegsInfos ids outInfos =>
    exact hkeeps (getRegsInfos_yields hanswers h hargs fun _ _ => trivial).keeps
  | getRegs ids outBufs regsSize =>
    exact hkeeps (getRegs_yields hanswers h hargs fun _ _ => trivial).keeps
  | setRegs ids inBufs regsSize =>
    obtain ⟨a, rfl⟩ := hset trivial
    have hspec := setRegs_spec hvm.tracks _ h hargs (fun _ _ => trivial) w rfl
    rw [show (DBClient.setRegs (VMSide.impl api) ids inBufs regsSize).on w = (.ok a, w') from hrun]
      at hspec
    exact Ready.coherent hspec.2

theorem Coherent.quiet {w₀ : World (Debugger V)} (h : Coherent T values w₀)
    (hrun : Quiet api T values w₀ w) : Coherent T values w := by
  induction hrun with
  | start => exact h
  | call k _ hargs hrun hset ih => exact ih.call hvm k hargs hrun hset
  | other _ hclient hregs hnames hvalues ih =>
    have hserver := ih.server
    refine Ready.coherent ⟨hclient ▸ ih.stopped, ⟨hvalues, ?_, ?_⟩, hclient ▸ ih.cache⟩
    · rw [hregs]
      exact hserver.regs
    · rw [hnames, hregs]
      exact hserver.names

/-- A coherent cache gives current values. -/
theorem Coherent.getsCurrent (h : Coherent T values w) {ids : List VmReg} {outBufs : List Bytes}
    {regsSize : List VmSize} (hargs : SizedArgs T ids outBufs regsSize) :
    GetsCurrent api T values w ids outBufs regsSize := by
  have hspec := getRegs_yields (hvm.answers (values w.impl.vm)) h hargs (fun _ _ => trivial) w rfl
  constructor
  · intro hfits hhas
    rcases hrun : (getRegs (VMSide.impl api) ids outBufs regsSize).on w with ⟨e | bufs, w'⟩
    · rw [hrun] at hspec
      exact absurd hhas (hspec.2 hfits).1
    · exact ⟨bufs, w', rfl⟩
  · intro bufs w' hrun
    rw [hrun] at hspec
    obtain ⟨-, ⟨rows, rfl, hrows⟩, -⟩ := hspec
    refine ⟨rows, rfl, hrows.imp ?_⟩
    rintro p row ⟨val, buf, rfl, hbuf, -, rfl⟩
    exact ⟨buf, hbuf, rfl⟩

theorem Coherent.truthful (h : Coherent T values w) : Truthful api T values w :=
  fun _ hrun _ _ _ hargs => (h.quiet hvm hrun).getsCurrent hvm hargs

end Coherent

/-! ## A batch that the VM refuses -/

/-- What the VM has stored of a `set_regs` that threw: the values `pre`, up to the register that it
refused; nothing if it does not have one of them. -/
def Interrupted (api : VMApi V) (T : RegTable) (values : V → VmReg → Bytes)
    (ids : List VmReg) (inBufs : List Bytes) (cur : VmReg → Bytes) (pre : List (VmReg × Bytes)) :
    Prop :=
  (pre = [] ∧ ∃ id ∈ ids, ¬ T.Has id) ∨
    ∃ row post, rowsOf ids inBufs = pre ++ row :: post ∧
      ∃ vm msg, values vm = T.store cur pre ∧ (api.setReg row.1 row.2 vm).1 = .error msg

theorem store_cons (row : VmReg × Bytes) (rows : List (VmReg × Bytes)) :
    T.store cur (row :: rows) =
      T.store (Function.update cur row.1 (row.2.take (T.size row.1).toNat)) rows := rfl

theorem store_of_not_mem {rows : List (VmReg × Bytes)} {id : VmReg}
    (h : id ∉ rows.map Prod.fst) : T.store cur rows id = cur id := by
  induction rows generalizing cur with
  | nil => rfl
  | cons row rows ih =>
    rw [List.map_cons, List.mem_cons, not_or] at h
    rw [store_cons, ih h.2, Function.update_of_ne h.1]

/-- Infos that do not come leave the client as it was. -/
theorem fetchRegInfosById_error {σ : Type} {impl : DBClientImpl σ} {w w' : World σ}
    {ids : List VmReg} {e : Fault} (h : (fetchRegInfosById impl ids).on w = (.error e, w')) :
    w'.client = w.client := by
  unfold fetchRegInfosById at h
  rw [on_bind_ok (on_get w)] at h
  simp only at h
  generalize ids.filter (· ∉ w.client.regiIdxMap) = miss at h
  split at h
  · cases h
  · rw [call] at h
    rcases hcall : (impl (.getRegsInfos miss (List.replicate miss.length Serial.blank))).on w.impl
      with ⟨e' | infos, i⟩
    · rw [on_bind_error (on_zoom hcall)] at h
      exact (Prod.mk.inj h).2 ▸ rfl
    · rw [on_bind_ok (on_zoom hcall)] at h
      cases h

section Refused

variable (hvm : api.Stores T values)
include hvm

/-- Registers set one after the other, up to the one that the VM refuses. -/
theorem setRows_refused {rows : List (VmReg × Bytes)}
    (hrows : ∀ row ∈ rows, T.Has row.1 ∧ (T.size row.1).toNat ≤ row.2.length)
    {db db' : Debugger V} {e : Fault} (hcur : values db.vm = cur)
    (h : (rows.forM fun row => Debugger.setReg api row.1 row.2).on db = (.error e, db')) :
    ∃ pre row post vm msg, rows = pre ++ row :: post ∧ values vm = T.store cur pre ∧
      (api.setReg row.1 row.2 vm).1 = .error msg ∧ values db'.vm = T.store cur pre := by
  induction rows generalizing cur db with
  | nil => cases h
  | cons row rows ih =>
    obtain ⟨hhas, hlen⟩ := hrows row (by simp)
    have h : (Debugger.setReg api row.1 row.2 >>= fun _ =>
      rows.forM fun row => Debugger.setReg api row.1 row.2).on db = (.error e, db') := h
    rcases hset : api.setReg row.1 row.2 db.vm with ⟨msg | _, vm'⟩
    · have hrun : (Debugger.setReg api row.1 row.2).on db =
          (.error (.vmError msg), { db with vm := vm' }) := by
        unfold Debugger.setReg Debugger.callVM
        rw [on_of, hset]
        rfl
      rw [on_bind_error hrun] at h
      obtain ⟨-, rfl⟩ := Prod.mk.inj h
      exact ⟨[], row, rows, db.vm, msg, rfl, hcur, congrArg Prod.fst hset,
        (hvm.refused hhas hlen hset).trans hcur⟩
    · have hrun : (Debugger.setReg api row.1 row.2).on db = (.ok (), { db with vm := vm' }) := by
        unfold Debugger.setReg Debugger.callVM
        rw [on_of, hset]
        rfl
      rw [on_bind_ok hrun] at h
      obtain ⟨pre, row', post, vm, msg, rfl, hvalues, hset', hdb'⟩ :=
        ih (fun row hrow => hrows row (by simp [hrow])) (hcur ▸ hvm.set hhas hlen hset) h
      exact ⟨row :: pre, row', post, vm, msg, rfl, hvalues, hset', hdb'⟩

/-- After a `set_regs` that the VM refused: it has stored a part of the batch, the cache is as it
was. -/
theorem setRegs_interrupted (hw : Coherent T values w) {ids : List VmReg} {inBufs : List Bytes}
    {regsSize : List VmSize} (hargs : SizedArgs T ids inBufs regsSize)
    (hfits : ∀ id ∈ ids, T.Fits id) {e : Fault}
    (h : (setRegs (VMSide.impl api) ids inBufs regsSize).on w = (.error e, w')) :
    ∃ pre, Interrupted api T values ids inBufs (values w.impl.vm) pre ∧
      values w'.impl.vm = T.store (values w.impl.vm) pre ∧
      Ready T (fun _ => True) (fun _ => True) (fun id val => val = values w.impl.vm id) w' ∧
      w'.client.cached = w.client.cached := by
  have hinfos := fetchRegInfosById_yields (hvm.answers _) hw (fun id (_ : id ∈ ids) => trivial) w rfl
  unfold setRegs at h
  rw [on_bind_ok (assertState_on hw.stopped)] at h
  rcases hrun : (fetchRegInfosById (VMSide.impl api) ids).on w with ⟨e' | u, w₁⟩ <;>
    rw [hrun] at hinfos
  · rw [on_bind_error hrun] at h
    obtain ⟨-, rfl⟩ := Prod.mk.inj h
    obtain ⟨hready, he⟩ := hinfos
    have hnot := (he fun id hid _ => hfits id hid).1
    exact ⟨[], .inl ⟨rfl, by simpa using hnot⟩, hready.server.vm, hready.forget,
      congrArg DBClient.cached (fetchRegInfosById_error hrun)⟩
  obtain ⟨hw₁, ⟨hfetched, hcached, -⟩, -⟩ := hinfos
  have hids : ∀ id ∈ ids, id ∈ w₁.client.regiIdxMap := fun id hid => hfetched id (.inr hid)
  have hhas : ∀ id ∈ ids, T.Has id := fun id hid => hw₁.cache.has (hids id hid)
  rw [on_bind_ok hrun, call, hargs.setRegs_eq] at h
  rcases hset : ((rowsOf ids inBufs).forM fun row => Debugger.setReg api row.1 row.2).on w₁.impl
    with ⟨e' | u, db⟩
  · rw [on_bind_error (on_zoom hset)] at h
    obtain ⟨-, rfl⟩ := Prod.mk.inj h
    obtain ⟨pre, row, post, vm, msg, hsplit, hvalues, hrefuse, hdb⟩ :=
      setRows_refused hvm (hargs.rows hhas) hw₁.server.vm hset
    have hspec := VMSide.setRows_spec (L := fun _ => True) hvm.tracks (hargs.rows hhas) _ w₁.impl
      hw₁.server
    rw [hset] at hspec
    exact ⟨pre, .inr ⟨row, post, hsplit, vm, msg, hvalues, hrefuse⟩, hdb,
      ⟨hw₁.stopped, hspec.2, hw₁.cache⟩, hcached⟩
  · rw [on_bind_ok (on_zoom hset)] at h
    have hspec := VMSide.setRows_spec (L := fun _ => True) hvm.tracks (hargs.rows hhas) _ w₁.impl
      hw₁.server
    rw [hset] at hspec
    have hw₂ : Ready T (fun vm => values vm = T.store (values w.impl.vm) (rowsOf ids inBufs))
        (fun _ => True) (fun id val => val = values w.impl.vm id) { w₁ with impl := db } :=
      ⟨hw₁.stopped, hspec, hw₁.cache⟩
    have hcache := cacheSets_spec hvm.tracks hw₂ fun p (hp : p ∈ ids.zipIdx) =>
        have hid : p.1 ∈ ids := List.fst_mem_of_mem_zipIdx hp
        ⟨hids p.1 hid, hargs.round hp (hhas p.1 hid)⟩
    rw [show (ids.zipIdx.forM (cacheSet ids.length inBufs regsSize)).on { w₁ with impl := db } =
      (.error e, w') from h] at hcache
    have hcache : ¬ ∀ p ∈ ids.zipIdx, T.Fits p.1 := hcache
    exact (hcache fun p hp => hfits p.1 (List.fst_mem_of_mem_zipIdx hp)).elim

omit hvm in
/-- A register with a value in the cache is not asked for again. -/
theorem getRegs_cached {P : V → Prop} {L : VmReg → Prop} {R : VmReg → Bytes → Prop}
    (hw : Ready T P L R w) {id : VmReg} (hne : w.client.cached id ≠ []) :
    T.Has id ∧ (w.client.cached id).length = (T.size id).toNat ∧
    SizedArgs T [id] [w.client.cached id] [T.size id] ∧
      (getRegs (VMSide.impl api) [id] [w.client.cached id] [T.size id]).on w =
        (.ok [w.client.cached id], w) := by
  have hid : id ∈ w.client.regiIdxMap := by
    by_contra hnot
    exact hne (by rw [cached, Std.TreeMap.getElem?_eq_none hnot]; rfl)
  obtain ⟨pos, inf, hfind, hpos, hinf, hidx⟩ := findReg_on hw.cache.byIdx hid
  have hval : w.client.cached id = inf.val := cached_of_pos hpos hinf
  have hinfo := (hw.cache.infos inf (List.mem_of_getElem? hinf)).2
  have hlen : inf.val.length = (T.size id).toNat := by
    rw [(hw.cache.vals pos inf hinf (hval ▸ hne)).2.1, ← hidx, RegTable.size_eq hinfo]
    rfl
  have hmem : ∀ x ∈ [id], x ∈ w.client.regiIdxMap := List.forall_mem_singleton.mpr hid
  have hmiss := missingVals_on hw.cache hmem
  have hfetch : (fetchRegInfosById (VMSide.impl api) [id]).on w = (.ok (), w) := by
    unfold fetchRegInfosById
    rw [on_bind_ok (on_get w)]
    simp only
    rw [if_pos (by simpa using hid)]
    rfl
  have hvals : (fetchRegValsById (VMSide.impl api) [id]).on w = (.ok (), w) := by
    rw [fetchRegValsById_eq, on_bind_ok hfetch, on_bind_ok hmiss, if_pos (by simp [hne])]
    rfl
  rw [hval] at hne ⊢
  refine ⟨hw.cache.has hid, hlen, ?_, ?_⟩
  · rintro p hp
    obtain rfl : p = (id, 0) := by simpa using hp
    exact ⟨_, _, rfl, rfl, hlen.ge, fun _ => rfl⟩
  · unfold getRegs
    rw [on_bind_ok (assertState_on hw.stopped), on_bind_ok hvals]
    have hcopy : memcpy inf.val inf.val (T.size id).toNat = .ok inf.val := by
      rw [memcpy, if_pos ⟨hlen.ge, hlen.ge⟩, ← hlen, List.take_length, List.drop_length,
        List.append_nil]
    -- the loop has one round
    rw [show [id].zipIdx = [(id, 0)] from rfl, List.mapM_cons, bind_assoc]
    show ((findReg id >>= _ >>= _ : ClientM (Debugger V) _)).on w = _
    rw [bind_assoc, on_bind_ok hfind]
    dsimp only
    rw [assertThat_pos hne, lift_ok, pure_bind]
    show ((Prog.lift (memcpy inf.val inf.val (T.size id).toNat) >>= _ :
      ClientM (Debugger V) _)).on w = _
    rw [hcopy]
    rfl

/-- After `set_regs` threw, `get_regs` gives current values exactly if every register that the VM has
set before had no value in the cache, or the one that it has now. -/
theorem setRegs_truthful_iff (hw : Coherent T values w) {ids : List VmReg} {inBufs : List Bytes}
    {regsSize : List VmSize} (hargs : SizedArgs T ids inBufs regsSize)
    (hfits : ∀ id ∈ ids, T.Fits id) {msg : Bytes}
    (h : (setRegs (VMSide.impl api) ids inBufs regsSize).on w = (.error (.vmError msg), w')) :
    ∃ pre, Interrupted api T values ids inBufs (values w.impl.vm) pre ∧
      values w'.impl.vm = T.store (values w.impl.vm) pre ∧
      (Truthful api T values w' ↔ ∀ row ∈ pre, w.client.cached row.1 = [] ∨
        w.client.cached row.1 = T.store (values w.impl.vm) pre row.1) := by
  obtain ⟨pre, hpre, hvalues, hready, hcached⟩ := setRegs_interrupted hvm hw hargs hfits h
  refine ⟨pre, hpre, hvalues, fun htrue row hrow => ?_, fun hall => Coherent.truthful hvm ?_⟩
  · rw [or_iff_not_imp_left]
    intro hne
    rw [← hcached] at hne ⊢
    obtain ⟨hhas, hlen, hargs', hrun⟩ := @getRegs_cached _ api _ _ _ _ _ hready row.1 hne
    obtain ⟨rows, hrows, hgives⟩ := (htrue w' .start _ _ _ hargs').2 _ _ hrun
    rw [show [row.1].zipIdx = [(row.1, 0)] from rfl] at hgives
    rcases hgives with _ | ⟨⟨buf, hbuf, rfl⟩, ⟨⟩⟩
    obtain rfl : w'.client.cached row.1 = buf := Option.some.inj hbuf
    rw [hvm.length hhas, ← hlen, List.drop_length, List.append_nil] at hrows
    rw [← hvalues]
    exact List.head_eq_of_cons_eq hrows
  · refine ⟨hready.stopped, hready.server.with_vm rfl, ?_⟩
    refine { hready.cache with vals := fun pos inf hinf hne => ?_ }
    obtain ⟨hpos, hlen, hR⟩ := hready.cache.vals pos inf hinf hne
    refine ⟨hpos, hlen, ?_⟩
    rw [hvalues]
    have hval : w.client.cached inf.idx = inf.val := hcached ▸ cached_of_pos hpos hinf
    by_cases hmem : inf.idx ∈ pre.map Prod.fst
    · obtain ⟨row, hrow, hidx⟩ := List.mem_map.mp hmem
      have := hall row hrow
      rw [hidx, hval] at this
      exact this.resolve_left hne
    · rw [store_of_not_mem hmem]
      exact hR

end Refused

/-! ### A register that is set twice -/

/-- A VM with one register, of one byte, that may not be zero. -/
def nonZero : VMApi (UpdateInfos × UInt8) :=
  { oneByte with
    setReg := fun idx newVal vm =>
      if idx = 1 ∧ newVal.headD 0 ≠ 0 then (.ok (), (vm.1, newVal.headD 0)) else (.error [], vm) }

/-- The value of its register. -/
def nonZeroVals (vm : UpdateInfos × UInt8) (id : VmReg) : Bytes := if id = 1 then [vm.2] else []

theorem nonZero_stores : nonZero.Stores oneByteRegs nonZeroVals where
  answers cur :=
    { known := fun infos hcur h => by
        obtain ⟨rfl, rfl⟩ := oneByteRegs_info h
        exact ⟨_, rfl, hcur⟩
      unknown := fun infos hcur h => by
        rename_i id vm
        by_cases hid : id = 1
        · subst hid
          cases h
        · exact ⟨[], vm, if_neg hid, hcur⟩
      value := fun old hcur h _ => by
        obtain ⟨rfl, rfl⟩ := oneByteRegs_info h
        exact ⟨_, _, rfl, rfl, congrFun hcur 1, hcur⟩
      found := fun hcur h => by
        obtain ⟨rfl, hname⟩ := oneByteRegs_find h
        exact ⟨_, if_pos hname, hcur⟩
      notFound := fun hcur h => by
        rename_i name vm
        by_cases hname : name = [114, 49] ∨ name = [114, 48, 49]
        · exact absurd ((if_pos hname).symm.trans h) nofun
        · exact ⟨[], vm, if_neg hname, hcur⟩ }
  set := by
    intro id buf vm vm' hhas hlen hset
    obtain ⟨d, hd⟩ := Option.isSome_iff_exists.mp hhas
    obtain ⟨rfl, -⟩ := oneByteRegs_info hd
    obtain ⟨b, rest, rfl⟩ := List.exists_cons_of_length_pos hlen
    simp only [nonZero] at hset
    split at hset
    · obtain ⟨-, rfl⟩ := Prod.mk.inj hset
      funext id
      by_cases hid : id = 1
      · subst hid
        rfl
      · rw [Function.update_of_ne hid, nonZeroVals, nonZeroVals, if_neg hid, if_neg hid]
    · cases hset
  refused := by
    intro id buf vm msg vm' hhas hlen hset
    simp only [nonZero] at hset
    split at hset
    · cases hset
    · rw [(Prod.mk.inj hset).2]

/-- A client that has read the register, which holds 42. -/
def readClient : World (Debugger (UpdateInfos × UInt8)) :=
  ((getRegs (VMSide.impl nonZero) [1] [[0]] [1]).on oneByteClient).2

theorem readClient_coherent : Coherent oneByteRegs nonZeroVals readClient := by
  have hconnected : Connected nonZero oneByteClient :=
    ⟨oneByteDb, [.call .stop], { oneByteDb with state := .stopped }, Serial.blank,
      ⟨(⟨.ok, 4⟩, 42), 0, rfl⟩, Debugger.Run.start.step (.call (r := .ok ()) rfl trivial), rfl, rfl⟩
  refine (hconnected.coherent nonZero_stores).call nonZero_stores (r := .ok [[42]])
    (.getRegs [1] [[0]] [1]) (List.forall_mem_singleton.mpr ?_) rfl nofun
  exact ⟨1, [0], rfl, rfl, by decide, fun _ => rfl⟩

theorem sizedArgs_twice : SizedArgs oneByteRegs [1, 1] [[7], [0]] [1, 1] :=
  List.forall_mem_cons.mpr ⟨⟨1, [7], rfl, rfl, by decide, fun _ => rfl⟩,
    List.forall_mem_singleton.mpr ⟨1, [0], rfl, rfl, by decide, fun _ => rfl⟩⟩

/-- The register is 7 then, and the client still has 42. -/
theorem setRegs_truthful_iff_twice :
    ∃ w', ∃ pre, Interrupted nonZero oneByteRegs nonZeroVals [1, 1] [[7], [0]]
        (nonZeroVals readClient.impl.vm) pre ∧
      nonZeroVals w'.impl.vm = oneByteRegs.store (nonZeroVals readClient.impl.vm) pre ∧
      (Truthful nonZero oneByteRegs nonZeroVals w' ↔ ∀ row ∈ pre,
        readClient.client.cached row.1 = [] ∨ readClient.client.cached row.1 =
          oneByteRegs.store (nonZeroVals readClient.impl.vm) pre row.1) :=
  ⟨_, setRegs_truthful_iff nonZero_stores readClient_coherent sizedArgs_twice
    (fun _ _ _ hd => (oneByteRegs_info hd).2 ▸ by decide)
    (show (setRegs (VMSide.impl nonZero) [1, 1] [[7], [0]] [1, 1]).on readClient =
      (.error (.vmError []), _) from rfl)⟩

/-- So `get_regs` does not give the current value. -/
theorem setRegs_stale : nonZero.Stores oneByteRegs nonZeroVals ∧
    Coherent oneByteRegs nonZeroVals readClient ∧
    SizedArgs oneByteRegs [1, 1] [[7], [0]] [1, 1] ∧
    ∃ w', (setRegs (VMSide.impl nonZero) [1, 1] [[7], [0]] [1, 1]).on readClient =
        (.error (.vmError []), w') ∧
      nonZeroVals w'.impl.vm 1 = [7] ∧
      (getRegs (VMSide.impl nonZero) [1] [[0]] [1]).on w' = (.ok [[42]], w') ∧
      ¬ Truthful nonZero oneByteRegs nonZeroVals w' := by
  refine ⟨nonZero_stores, readClient_coherent, sizedArgs_twice, _, rfl, rfl, rfl, fun htrue => ?_⟩
  obtain ⟨rows, hrows, hgives⟩ := (htrue _ .start [1] [[0]] [1]
    (List.forall_mem_singleton.mpr ⟨1, [0], rfl, rfl, by decide, fun _ => rfl⟩)).2 _ _ rfl
  rw [show [(1 : VmReg)].zipIdx = [(1, 0)] from rfl] at hgives
  rcases hgives with _ | ⟨⟨buf, hbuf, rfl⟩, ⟨⟩⟩
  obtain rfl : [0] = buf := Option.some.inj hbuf
  cases hrows

end DBClient

end Odb
