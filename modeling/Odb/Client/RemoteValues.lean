import Odb.Client.RemoteRegs

/-!
# A request for the values of registers

The server fills buffers of the announced sizes, one value after the other.

* `Reaches`: it comes to a register that the VM does not have; `readRegs_reaches`: only then does the
  VM throw.
* `DataClient.response_rows`: what a response does to the buffers of the client.
* `Remote.getRegs_outcome`: how the request ends, whatever its sizes are.
-/

namespace Odb

open Prog Serial Wire DataClientHandler

/-! ## The server -/

/-- One of the rows is of a register that the VM does not have, and the values before it fit. -/
def Reaches (T : RegTable) : List (VmReg × VmSize) → Prop
  | [] => False
  | row :: rows => ¬ T.Has row.1 ∨ T.size row.1 ≤ row.2 ∧ Reaches T rows

theorem Reaches.lacks {T : RegTable} {rows : List (VmReg × VmSize)} (h : Reaches T rows) :
    ∃ row ∈ rows, ¬ T.Has row.1 := by
  induction rows with
  | nil => exact h.elim
  | cons row rows ih =>
    rcases h with hnot | ⟨-, hrest⟩
    · exact ⟨row, by simp, hnot⟩
    · obtain ⟨row', hrow', hnot⟩ := ih hrest
      exact ⟨row', by simp [hrow'], hnot⟩

section Server

open ImplCall (readReg)

variable {V : Type} {api : VMApi V} {T : RegTable} {P : V → Prop} {R : VmReg → Bytes → Prop}

/-- One value, if it fits. -/
theorem readReg_outcome (hvm : api.HasRegs T P R) {row : VmReg × VmSize} (hfit : T.Fits row.1)
    {db : Debugger V} (hdb : db.RegsOf T P fun _ => True) :
    Outcome
      (fun _ db' => db'.RegsOf T P (fun _ => True) ∧ T.Has row.1 ∧ T.size row.1 ≤ row.2)
      (fun e db' => db'.RegsOf T P (fun _ => True) ∧ (Caught e ↔ ¬ T.Has row.1) ∧
        (T.Has row.1 → ¬ T.size row.1 ≤ row.2))
      ((readReg api row.1 row.2).on db) := by
  have hget := @Debugger.getReg_queries _ _ _ _ _ _ hvm row.1 trivial db hdb
  unfold readReg
  rcases hrun : (Debugger.getReg api row.1).on db with ⟨e | val, db'⟩ <;> rw [hrun] at hget
  · obtain ⟨hdb', he⟩ := hget
    obtain ⟨hnot, he⟩ := he hfit
    rw [on_bind_error hrun]
    exact ⟨hdb', iff_of_true he hnot, fun hhas => absurd hhas hnot⟩
  · obtain ⟨hdb', ⟨⟨d, hd, hlen⟩, -⟩, hhas⟩ := hget
    have hfits : val.length ≤ (blanks UInt8 row.2.toNat).length ↔ T.size row.1 ≤ row.2 := by
      rw [length_blanks, hlen, ← RegTable.size_eq hd, UInt64.le_iff_toNat_le]
    rw [on_bind_ok hrun, on_lift, VMSide.overwrite]
    by_cases hle : T.size row.1 ≤ row.2
    · rw [if_pos (hfits.mpr hle)]
      exact ⟨hdb', hhas hfit, hle⟩
    · rw [if_neg (mt hfits.mp hle)]
      exact ⟨hdb', iff_of_false not_false (not_not.mpr (hhas hfit)), fun _ => hle⟩

/-- The VM throws only where it does not have a register. -/
theorem readRegs_reaches (hvm : api.HasRegs T P R) {rows : List (VmReg × VmSize)}
    (hfit : ∀ row ∈ rows, T.Fits row.1) {db : Debugger V} (hdb : db.RegsOf T P fun _ => True) :
    Outcome
      (fun _ db' => db'.RegsOf T P (fun _ => True) ∧ ¬ Reaches T rows)
      (fun e db' => db'.RegsOf T P (fun _ => True) ∧ (Caught e ↔ Reaches T rows) ∧
        ¬ ∀ row ∈ rows, T.Has row.1 ∧ T.size row.1 ≤ row.2)
      ((rows.mapM fun row => readReg api row.1 row.2).on db) := by
  induction rows generalizing db with
  | nil => exact ⟨hdb, id⟩
  | cons row rows ih =>
    have hrow := readReg_outcome hvm (hfit row (by simp)) hdb
    rw [List.mapM_cons, List.forall_mem_cons]
    rcases hrun : (readReg api row.1 row.2).on db with ⟨e | val, db₁⟩ <;> rw [hrun] at hrow
    · obtain ⟨hdb₁, he, hbad⟩ := hrow
      rw [on_bind_error hrun]
      refine ⟨hdb₁, he.trans ⟨.inl, fun h => ?_⟩, fun h => hbad h.1.1 h.1.2⟩
      rcases h with hnot | ⟨hle, -⟩
      · exact hnot
      · exact fun hhas => hbad hhas hle
    · obtain ⟨hdb₁, hhas, hle⟩ := hrow
      have hreaches : Reaches T (row :: rows) ↔ Reaches T rows := by
        rw [Reaches, or_iff_right (not_not.mpr hhas), and_iff_right hle]
      have hrest := ih (fun row hrow => hfit row (by simp [hrow])) hdb₁
      rw [on_bind_ok hrun, hreaches]
      rcases hrun' : (rows.mapM fun row => readReg api row.1 row.2).on db₁ with ⟨e | vals, db₂⟩ <;>
        rw [hrun'] at hrest
      · rw [on_bind_error hrun']
        exact ⟨hrest.1, hrest.2.1, fun h => hrest.2.2 h.2⟩
      · rw [on_bind_ok hrun']
        exact hrest

theorem terse_readRegs (htexts : api.TextsFit T) (rows : List (VmReg × VmSize)) :
    Terse (rows.mapM fun row => readReg api row.1 row.2) := by
  have hrow (row : VmReg × VmSize) : Terse (readReg api row.1 row.2) := by
    unfold readReg
    refine .bind ?_ fun val => .lift fun e he => ?_
    · rw [Debugger.getReg_eq]
      refine .bind (terse_getRegInfos htexts row.1) fun infos => ?_
      refine .bind (.callVM fun vm msg h => htexts.getReg _ _ _ _ _ h) fun infos' => ?_
      refine .bind (fun _ _ => trivial) fun _ => ?_
      split
      · exact fun _ _ => trivial
      · rintro _ - msg ⟨⟩
    · unfold VMSide.overwrite at he
      split at he <;> cases he
      exact id
  refine Spec.conseq (Spec.mapM (I := fun _ => True) (R := fun _ _ => True) rows fun row _ => ?_)
    (fun _ h => h) (fun _ _ _ => trivial) fun _ _ h => h
  exact Spec.conseq (hrow row) (fun _ h => h) (fun _ _ _ => ⟨trivial, trivial⟩) fun _ _ h => h

end Server

/-! ## The client -/

/-- Either way, the buffers keep their sizes, and nothing that is caught is thrown. -/
abbrev KeepsRows (c : BuffM (List Bytes)) (ptr : List Bytes) : Prop :=
  Spec (fun _ => True) c (fun rows _ => rows.map List.length = ptr.map List.length)
    fun e _ => ¬ Caught e

section Client

theorem itemsAt_append_drop {α : Type} {ptr items : List α} {n : Nat}
    (h : itemsAt ptr n = .ok items) : ptr = items ++ ptr.drop n := by
  unfold itemsAt at h
  split at h
  · rw [← Except.ok.inj h, List.take_append_drop]
  · cases h

/-- A row that is read over the first items of a buffer. -/
theorem readRow_spec (buf : Bytes) (size : Nat) :
    Spec (fun _ => True) (readBuf buf size : BuffM Bytes)
      (fun row _ => row.length = buf.length) fun e _ => ¬ Caught e := by
  intro s _
  unfold readBuf
  rcases hitems : itemsAt buf size with e | items
  · exact itemsAt_not_caught e hitems
  rw [lift_ok, pure_bind]
  have hread := Takes.each items takes_UInt8 s
  by_cases hlen : items.length * 1 ≤ s.length
  · rw [on_bind_ok (hread.1 hlen), on_pure]
    show (words _ _ _ _ ++ buf.drop size).length = buf.length
    rw [itemsAt_append_drop hitems, List.length_append, length_words, List.length_append]
    rw [← itemsAt_append_drop hitems]
  · obtain ⟨s', hshort⟩ := hread.2 (Nat.lt_of_not_le hlen)
    rw [on_bind_error hshort]
    exact id

theorem readRows_spec (ptr : List Bytes) (sizes : List Nat) :
    KeepsRows (readBuf2d ptr sizes) ptr := by
  intro s _
  unfold readBuf2d
  rcases hrows : itemsAt ptr sizes.length with e | rows
  · exact itemsAt_not_caught e hrows
  have hptr := itemsAt_append_drop hrows
  have hlen := length_of_itemsAt hrows
  have hrow (p : Bytes × Nat) : Spec (fun _ => True) (readBuf p.1 p.2)
      (fun row _ => True ∧ row.length = p.1.length) fun e _ => ¬ Caught e :=
    (readRow_spec p.1 p.2).conseq (fun _ h => h) (fun _ _ h => ⟨trivial, h⟩) fun _ _ h => h
  have hloop := Spec.mapM (I := fun _ => True)
    (R := fun (p : Bytes × Nat) (row : Bytes) => row.length = p.1.length) (rows.zip sizes)
    (fun p _ => hrow p) s trivial
  rw [lift_ok, pure_bind]
  rcases hrun : ((rows.zip sizes).mapM fun p : Bytes × Nat => (readBuf p.1 p.2 : BuffM _)).on s with
    ⟨e | rows', s'⟩ <;> rw [hrun] at hloop
  · rw [on_bind_error hrun]
    exact hloop
  · rw [on_bind_ok hrun, on_pure]
    have hrows' := VMSide.lengths_eq hloop.2
    have hfst := congrArg (List.map List.length) (List.map_fst_zip hlen.le)
    rw [List.map_map] at hfst
    show (rows' ++ ptr.drop sizes.length).map List.length = ptr.map List.length
    conv_rhs => rw [hptr]
    rw [List.map_append, List.map_append, hrows']
    exact congrArg (· ++ _) hfst

/-- The registers of a request for values, and the sizes that it announces for them. -/
def Req.regRows : {ty : ReqType} → Req ty → List (VmReg × VmSize)
  | .getRegs, r => r.ids.zip (List.replicate r.n.toNat r.size)
  | .getRegsVar, r => r.ids.zip r.sizes
  | _, _ => []

/-- The buffers of a request for values. -/
def Req.regBufs : {ty : ReqType} → Req ty → List Bytes
  | .getRegs, r => r.bufs
  | .getRegsVar, r => r.bufs
  | _, _ => []

variable {ty : ReqType} {r r₀ : Req ty}

/-- What is read into a request for values are the rows. -/
theorem DataClient.response_rows (hty : ty = .getRegs ∨ ty = .getRegsVar) :
    Spec (fun _ => True) (DataClient.rh.clientReadResponse r)
      (fun a _ => a.regBufs.map List.length = r.regBufs.map List.length) fun e _ => ¬ Caught e := by
  have hlast {c : BuffM (List Bytes)} {put : List Bytes → Req ty}
      (hc : KeepsRows c r.regBufs) (hput : ∀ bufs, (put bufs).regBufs = bufs) :
      Spec (fun _ => True) (c >>= fun bufs => pure (put bufs))
        (fun a _ => a.regBufs.map List.length = r.regBufs.map List.length) fun e _ => ¬ Caught e :=
    Spec.bind hc fun bufs => .ret fun _ h => by rw [hput, h]
  rcases hty with rfl | rfl
  · exact @hlast (buffer2dOut .cliRecv r.bufs r.n.toUInt64 r.size)
      (fun bufs => ⟨r.n, r.size, r.ids, bufs⟩) (readRows_spec _ _) fun _ => rfl
  · refine @hlast (buffer2dvarOut .cliRecv r.bufs r.n.toUInt64 r.sizes)
      (fun bufs => ⟨r.n, r.ids, r.sizes, bufs⟩) ?_ fun _ => rfl
    refine Spec.bind (Q := fun _ _ => True) (fun s _ => ?_) fun ns => readRows_spec r.bufs ns
    rw [on_lift]
    unfold rowSizesVar
    rcases hitems : itemsAt r.sizes r.n.toUInt64.toNat with e | items
    · exact itemsAt_not_caught e hitems
    · trivial

/-- The request itself does not depend on the buffers. -/
theorem DataClient.request_received (hty : ty = .getRegs ∨ ty = .getRegsVar) :
    DataClient.request (r.received r₀) = DataClient.request r := by
  have hput : ∃ put : Req ty → Req ty,
      prepareRequest .cliSend (r.received r₀) = put <$> prepareRequest .cliSend r := by
    rcases hty with rfl | rfl
    · refine ⟨fun a => { a with bufs := ReqFixed.blankBufs r }, ?_⟩
      show ReqFixed.prepare .cliSend buffer2dOut { r with bufs := ReqFixed.blankBufs r } =
        _ <$> ReqFixed.prepare .cliSend buffer2dOut r
      unfold ReqFixed.prepare
      simp only [map_bind, map_pure]
      rfl
    · refine ⟨fun a => { a with bufs := ReqVar.blankBufs r }, ?_⟩
      show ReqVar.prepare .cliSend buffer2dvarOut { r with bufs := ReqVar.blankBufs r } =
        _ <$> ReqVar.prepare .cliSend buffer2dvarOut r
      unfold ReqVar.prepare
      simp only [map_bind, map_pure]
      rfl
  obtain ⟨put, hput⟩ := hput
  unfold DataClient.request RequestHandler.clientWriteRequest
  rw [hput]
  simp only [← map_bind]
  unfold written
  rw [on_map]
  rcases (Prog.on _ []).1 with _ | _ <;> rfl

/-- A response that can be read into another request of the type. -/
theorem DataClient.response_kept (hty : ty = .getRegs ∨ ty = .getRegsVar) {q b : Req ty} {is : Bytes}
    (h : DataClient.response q is = .ok b) :
    (∃ a, DataClient.response r is = .ok a ∧
      a.regBufs.map List.length = r.regBufs.map List.length) ∨
    ∃ e, DataClient.response r is = .error e ∧ ¬ Caught e := by
  unfold DataClient.response readFrom at h ⊢
  obtain ⟨resTy, bs, htag, h⟩ := bind_eq_ok.mp (Prod.ext h rfl)
  split at h
  · obtain ⟨err, bs', -, h⟩ := bind_eq_ok.mp h
    cases h
  next hne =>
  obtain ⟨_, bs', hassert, -⟩ := bind_eq_ok.mp h
  rw [on_bind_ok htag, if_neg hne, on_bind_ok hassert]
  have hread := DataClient.response_rows (r := r) hty bs' trivial
  rcases hrun : (DataClient.rh.clientReadResponse r).on bs' with ⟨e | a, _⟩ <;> rw [hrun] at hread
  · exact .inr ⟨e, rfl, hread⟩
  · exact .inl ⟨a, rfl, hread⟩

end Client

/-! ## The request -/

/-- The rows of the request of a `get_regs`, as far as its count reaches. -/
def sentRows (ids : List VmReg) (sizes : List VmSize) : List (VmReg × VmSize) :=
  (ids.zip (declaredSizes ids.length sizes)).take (ids.length % 65536)

/-- A buffer can hold the rows, and the VM throws. -/
def Throws (T : RegTable) (rows : List (VmReg × VmSize)) : Prop :=
  (rows.map fun row => row.2.toNat).sum ≤ maxBytes ∧ Reaches T rows

namespace Remote

section Request

open ImplCall (readReg)

variable {V : Type} {api : VMApi V} {T : RegTable} {P : V → Prop} {R : VmReg → Bytes → Prop}
  {udp : DBClientUpdate} {ty : ReqType} {r r₀ : Req ty} {db : Debugger V}

/-- What the server does with such a request. -/
theorem serve_regRows (hty : ty = .getRegs ∨ ty = .getRegsVar) (hr : (r.received r₀).Counted) :
    ∃ put : List Bytes → Req ty,
      (serve api (r.received r₀)).on db =
        (((r.regRows.mapM fun row => readReg api row.1 row.2).on db).1.map put,
          ((r.regRows.mapM fun row => readReg api row.1 row.2).on db).2) ∧
      ∀ vals, ((r.regRows.mapM fun row => readReg api row.1 row.2).on db).1 = .ok vals →
        (put vals).Counted ∧ (put vals).total = r.total ∧ r.SameCounts (put vals) := by
  rcases hty with rfl | rfl
  · have hr : ReqFixed.Counted { r with bufs := ReqFixed.blankBufs r } := hr
    have hlen : (List.replicate r.n.toNat r.size).length = r.ids.length :=
      List.length_replicate.trans hr.ids.symm
    refine ⟨fun vals => { r with bufs := vals }, ?_, fun vals hvals => ⟨?_, rfl, rfl, rfl⟩⟩
    · rw [Req.regRows, ← ImplCall.getRegs_each hlen, List.map_replicate]
      exact on_bind_pure _ _ _
    · have hlens := ImplCall.getRegs_each_lengths hlen hvals
      rw [List.map_replicate] at hlens
      refine ⟨hr.ids, ?_, fun row hrow => ?_⟩
      · simpa using congrArg List.length hlens
      · exact List.eq_of_mem_replicate (hlens ▸ List.mem_map_of_mem hrow)
  · have hr : ReqVar.Counted { r with bufs := ReqVar.blankBufs r } := hr
    have hlen : r.sizes.length = r.ids.length := hr.sizes.trans hr.ids.symm
    refine ⟨fun vals => { r with bufs := vals }, ?_, fun vals hvals => ⟨?_, rfl, rfl, rfl⟩⟩
    · rw [Req.regRows, ← ImplCall.getRegs_each hlen]
      exact on_bind_pure _ _ _
    · exact ⟨hr.ids, hr.sizes, ImplCall.getRegs_each_lengths hlen hvals⟩

theorem sum_rows {ids : List VmReg} {sizes : List VmSize} (h : sizes.length = ids.length) :
    ((ids.zip sizes).map fun row => row.2.toNat).sum = (sizes.map UInt64.toNat).sum := by
  have hsnd := congrArg (List.map UInt64.toNat) (List.map_snd_zip h.le)
  rw [List.map_map] at hsnd
  exact congrArg List.sum hsnd

/-- The sizes that such a request announces. -/
theorem total_regRows (hty : ty = .getRegs ∨ ty = .getRegsVar) (hr : (r.received r₀).Counted) :
    r.total = (r.regRows.map fun row => row.2.toNat).sum := by
  rcases hty with rfl | rfl
  · have hr : ReqFixed.Counted { r with bufs := ReqFixed.blankBufs r } := hr
    rw [Req.regRows, sum_rows (List.length_replicate.trans hr.ids.symm), List.map_replicate,
      List.sum_replicate_nat]
    rfl
  · have hr : ReqVar.Counted { r with bufs := ReqVar.blankBufs r } := hr
    exact (sum_rows (hr.sizes.trans hr.ids.symm)).symm

theorem received_twice (hty : ty = .getRegs ∨ ty = .getRegsVar) :
    (r.received r₀).received r₀ = r.received r₀ := by
  rcases hty with rfl | rfl <;> rfl

theorem runSwitch_values (hty : ty = .getRegs ∨ ty = .getRegsVar) (hfresh : fresh udp ty = some r₀) :
    runSwitch api udp ty = reply api r₀ := by
  rcases hty with rfl | rfl <;> cases hfresh <;> rfl

/-- The bytes of the request are those of its cut with new buffers. -/
theorem request_kept (hty : ty = .getRegs ∨ ty = .getRegsVar) :
    DataClient.request (r.cut.received r₀) = DataClient.request r :=
  (DataClient.request_received hty).trans (DataClient.request_cut r)

/-- What the client has after the server has answered the request. -/
theorem sendReq_answered (hty : ty = .getRegs ∨ ty = .getRegsVar) (hfresh : fresh udp ty = some r₀)
    (hr : (r.cut.received r₀).Roomy) {s : Req ty} {db' : Debugger V}
    (hserve : (serve api (r.cut.received r₀)).on db = (.ok s, db')) (hs : s.Shaped)
    (hc : r.cut.SameCounts s) (is : Bytes) :
    ((∃ a is', (DataClient.sendReq (exchange api udp) r).on ⟨db, is⟩ = (.ok a, ⟨db', is'⟩) ∧
        a.regBufs.map List.length = r.regBufs.map List.length) ∨
      ∃ e t, (DataClient.sendReq (exchange api udp) r).on ⟨db, is⟩ = (.error e, t) ∧ ¬ Caught e) ∧
    (r.cut.Counted → ∃ a t, (DataClient.sendReq (exchange api udp) r).on ⟨db, is⟩ = (.ok a, t)) := by
  have hswitch := @runSwitch_values _ api udp _ r₀ hty hfresh
  have herr : ty ≠ .err := by
    rcases hty with rfl | rfl <;> exact nofun
  have hcounts : (r.cut.received r₀).SameCounts s := by
    rcases hty with rfl | rfl <;> exact hc
  have hserve' : (serve api ((r.cut.received r₀).received r₀)).on db = (.ok s, db') := by
    rw [received_twice hty, hserve]
  obtain ⟨req, res, hreq, hrun, hres⟩ := answer_ok hswitch herr hr hserve' hs hcounts
  rw [request_kept hty] at hreq
  have hsend : (DataClient.sendReq (exchange api udp) r).on ⟨db, is⟩ =
      (DataClient.response r res, ⟨db', res⟩) := by
    unfold DataClient.sendReq
    rw [hreq, on_bind_ok (on_lift _ _), on_bind_ok (exchange_on is (hrun [])), on_lift]
  rw [hsend]
  refine ⟨?_, fun hcounted => ?_⟩
  · rcases DataClient.response_kept (r := r) hty hres with ⟨a, ha, hlens⟩ | ⟨e, he, hnot⟩
    · exact .inl ⟨a, res, by rw [ha], hlens⟩
    · exact .inr ⟨e, _, by rw [he], hnot⟩
  · have htotal : (r.cut.received r₀).total = r.cut.total := by rcases hty with rfl | rfl <;> rfl
    have hroomy : r.cut.Roomy :=
      ⟨hcounted.shaped (htotal ▸ hr.shaped.total_lt), htotal ▸ hr.room⟩
    obtain ⟨req', res', hreq', hrun', hres'⟩ := answer_ok hswitch herr hroomy hserve hs hc
    rw [DataClient.request_cut, hreq] at hreq'
    obtain rfl := Except.ok.inj hreq'
    have hsame := (hrun []).symm.trans (hrun' [])
    obtain rfl : res = res' := congrArg Session.os (Prod.mk.inj hsame).2
    rw [DataClient.response_cut] at hres'
    rcases hread : DataClient.response r res with e | a
    · rw [hread] at hres'
      cases hres'
    · exact ⟨a, _, rfl⟩

/-- What the client has after the server has refused the request. -/
theorem sendReq_refused (hty : ty = .getRegs ∨ ty = .getRegsVar) (hfresh : fresh udp ty = some r₀)
    (hr : (r.cut.received r₀).Roomy) {e : Fault} {db' : Debugger V}
    (hserve : (serve api (r.cut.received r₀)).on db = (.error e, db'))
    (hterse : ∀ msg, e = .vmError msg → msg.length ≤ maxBytes) (is : Bytes) :
    ∃ e' is', (DataClient.sendReq (exchange api udp) r).on ⟨db, is⟩ = (.error e', ⟨db', is'⟩) ∧
      (Caught e' ↔ Caught e) := by
  have hswitch := @runSwitch_values _ api udp _ r₀ hty hfresh
  have hserve' : (serve api ((r.cut.received r₀).received r₀)).on db = (.error e, db') := by
    rw [received_twice hty, hserve]
  unfold DataClient.sendReq
  by_cases he : ∃ msg, e = .vmError msg
  · obtain ⟨msg, rfl⟩ := he
    obtain ⟨req, hreq, hans⟩ := answer_vmError hswitch hr hserve'
    have hlen : (what msg).length ≤ maxBytes :=
      (List.takeWhile_sublist _).length_le.trans (hterse msg rfl)
    rw [request_kept hty] at hreq
    rw [hreq, on_bind_ok (on_lift _ _), on_bind_ok (exchange_on is (hans [])), response_err r hlen,
      on_lift]
    exact ⟨_, _, rfl, Iff.rfl⟩
  · rw [not_exists] at he
    obtain ⟨req, hreq, hans⟩ := answer_fault hswitch hr he hserve'
    have hexch : (exchange api udp req).on ⟨db, is⟩ = (.error e, ⟨db', is⟩) := by
      unfold exchange runCommand
      rw [on_of, hans []]
    rw [request_kept hty] at hreq
    rw [hreq, on_bind_ok (on_lift _ _), on_bind_error hexch]
    exact ⟨_, _, rfl, Iff.rfl⟩

/-- The server cannot allocate what the request announces. -/
theorem sendReq_tooLarge (hty : ty = .getRegs ∨ ty = .getRegsVar) (hfresh : fresh udp ty = some r₀)
    (hr : (r.cut.received r₀).Counted) (hroom : maxBytes < (r.cut.received r₀).total)
    (t : Remote V) :
    ∃ e t', (DataClient.sendReq (exchange api udp) r).on t = (.error e, t') ∧ ¬ Caught e := by
  have hstop : ty ≠ .stop := by rcases hty with rfl | rfl <;> exact nofun
  obtain ⟨word, hw, hread⟩ := RequestHandler.breaks_request r₀ hr hroom
  obtain ⟨e, he, rest, hread⟩ := hread []
  rw [List.append_nil] at hread
  have hne : ∀ msg, e ≠ .vmError msg := by
    rintro msg rfl
    rcases he with ⟨h, -⟩ | ⟨h, -⟩ <;> cases h
  have hreq := (request_kept hty).symm.trans (request_eq hw)
  have hfault := @ImplCall.sendReq_fault _ api udp _ _ _ _ _ _ hne hstop hfresh hreq hread t
  rcases hsend : (DataClient.sendReq (exchange api udp) r).on t with ⟨e' | a, t'⟩ <;>
    rw [hsend] at hfault <;> cases hfault
  refine ⟨e, t', rfl, ?_⟩
  cases e with
  | vmError msg => exact absurd rfl (hne msg)
  | stdException | assertFail | undefined => exact id

/-- How a request for values ends. -/
theorem sendReq_values (hvm : api.HasRegs T P R) (htexts : api.TextsFit T)
    (hty : ty = .getRegs ∨ ty = .getRegsVar) (hfresh : fresh udp ty = some r₀)
    (hr : (r.cut.received r₀).Counted) (hfit : ∀ row ∈ r.cut.regRows, T.Fits row.1)
    (hdb : db.RegsOf T P fun _ => True) (is : Bytes) :
    Outcome
      (fun a t => t.db.RegsOf T P (fun _ => True) ∧
        a.regBufs.map List.length = r.regBufs.map List.length ∧
        ¬ (r.cut.total ≤ maxBytes ∧ Reaches T r.cut.regRows))
      (fun e t => (Caught e → t.db.RegsOf T P fun _ => True) ∧
        (Caught e ↔ r.cut.total ≤ maxBytes ∧ Reaches T r.cut.regRows) ∧
        ¬ (r.cut.Counted ∧ r.cut.total ≤ maxBytes ∧
          ∀ row ∈ r.cut.regRows, T.Has row.1 ∧ T.size row.1 ≤ row.2))
      ((DataClient.sendReq (exchange api udp) r).on ⟨db, is⟩) := by
  have htotal : (r.cut.received r₀).total = r.cut.total := by rcases hty with rfl | rfl <;> rfl
  by_cases hroom : r.cut.total ≤ maxBytes
  · have hroomy : (r.cut.received r₀).Roomy :=
      ⟨hr.shaped (htotal ▸ lt_of_room hroom), htotal ▸ hroom⟩
    obtain ⟨put, hserve, hput⟩ := @serve_regRows _ api ty r.cut r₀ db hty hr
    have hrows := readRegs_reaches hvm hfit hdb
    have hterse := terse_readRegs htexts r.cut.regRows db trivial
    simp only [and_iff_right hroom]
    rcases hrun : (r.cut.regRows.mapM fun row => readReg api row.1 row.2).on db with ⟨e | vals, db'⟩ <;>
      rw [hrun] at hserve hput hrows hterse
    · obtain ⟨hdb', hcaught, hbad⟩ := hrows
      obtain ⟨e', is', hsend, hkind⟩ := sendReq_refused hty hfresh hroomy hserve hterse is
      rw [hsend]
      exact ⟨fun _ => hdb', hkind.trans hcaught, fun h => hbad h.2⟩
    · obtain ⟨hdb', hnot⟩ := hrows
      obtain ⟨hcounted, hsame, hc⟩ := hput vals rfl
      have hs := hcounted.shaped (hsame ▸ lt_of_room hroom)
      obtain ⟨hends, hok⟩ := sendReq_answered hty hfresh hroomy hserve hs hc is
      rcases hends with ⟨a, is', hsend, hlens⟩ | ⟨e, t, hsend, he⟩
      · rw [hsend]
        exact ⟨hdb', hlens, hnot⟩
      · rw [hsend] at hok ⊢
        refine ⟨fun h => absurd h he, iff_of_false he hnot, fun h => ?_⟩
        obtain ⟨a, t', hcontra⟩ := hok h.1
        cases hcontra
  · obtain ⟨e, t, hsend, hnot⟩ :=
      @sendReq_tooLarge _ api udp _ _ _ hty hfresh hr (htotal ▸ Nat.lt_of_not_le hroom) ⟨db, is⟩
    rw [hsend]
    exact ⟨fun h => absurd h hnot, iff_of_false hnot fun h => hroom h.1, fun h => hroom h.2.1⟩

/-- What may come of a `get_regs` with the given sizes. -/
abbrev ValuesEnd (T : RegTable) (P : V → Prop) (ids : List VmReg) (sizes : List VmSize)
    (p : Except Fault (List Bytes) × Remote V) : Prop :=
  Outcome
    (fun vals t => t.db.RegsOf T P (fun _ => True) ∧
      vals.map List.length = sizes.map UInt64.toNat ∧ ¬ Throws T (sentRows ids sizes))
    (fun e t => (Caught e → t.db.RegsOf T P fun _ => True) ∧
      (Caught e ↔ Throws T (sentRows ids sizes)) ∧
      ¬ (declaredSizes ids.length sizes = sizes ∧ (sizes.map UInt64.toNat).sum ≤ maxBytes ∧
        ∀ row ∈ ids.zip sizes, T.Has row.1 ∧ T.size row.1 ≤ row.2)) p

/-- The request that `get_regs` sends, in one of its two forms. -/
structure ForValues (ids : List VmReg) (sizes : List VmSize) (bufs : List Bytes) (r r₀ : Req ty) :
    Prop where
  type : ty = .getRegs ∨ ty = .getRegsVar
  received : (r.cut.received r₀).Counted
  rows : r.cut.regRows = sentRows ids sizes
  bufs : r.regBufs = bufs
  counted : declaredSizes ids.length sizes = sizes → r.cut.Counted

theorem ForValues.ends {ids : List VmReg} {sizes : List VmSize} {bufs : List Bytes}
    (h : ForValues ids sizes bufs r r₀) (hvm : api.HasRegs T P R) (htexts : api.TextsFit T)
    (hfresh : fresh udp ty = some r₀) (hbufs : bufs.map List.length = sizes.map UInt64.toNat)
    (hlen : sizes.length = ids.length) (hfit : ∀ id ∈ ids, T.Fits id)
    (hdb : db.RegsOf T P fun _ => True) (is : Bytes) {out : Req ty → List Bytes}
    (hout : ∀ a, out a = a.regBufs) : ValuesEnd T P ids sizes
      ((DataClient.sendReq (exchange api udp) r >>= fun a => pure (out a)).on ⟨db, is⟩) := by
  have hsent : ∀ row ∈ sentRows ids sizes, row ∈ ids.zip (declaredSizes ids.length sizes) :=
    fun row hrow => List.mem_of_mem_take hrow
  have hvals := sendReq_values hvm htexts h.type hfresh h.received (fun row hrow =>
    hfit row.1 (List.of_mem_zip (hsent row (h.rows ▸ hrow))).1) hdb is
  rw [total_regRows h.type h.received, h.rows, h.bufs, hbufs] at hvals
  rcases hrun : (DataClient.sendReq (exchange api udp) r).on ⟨db, is⟩ with ⟨e | a, t⟩ <;>
    rw [hrun] at hvals
  · obtain ⟨hdb', hcaught, hbad⟩ := hvals
    rw [on_bind_error hrun]
    refine ⟨hdb', hcaught, fun hgood => hbad ⟨h.counted hgood.1, ?_, fun row hrow => ?_⟩⟩
    · have hle := ((List.take_sublist (ids.length % 65536) (ids.zip sizes)).map
        fun row => row.2.toNat).sum_le_sum (by simp)
      rw [sentRows, hgood.1]
      exact hle.trans ((sum_rows hlen).trans_le hgood.2.1)
    · exact hgood.2.2 row (hgood.1 ▸ hsent row hrow)
  · rw [on_bind_ok hrun, on_pure, hout]
    exact hvals

/-- How `get_regs` ends, whatever the sizes of its buffers are. -/
theorem getRegs_outcome (hvm : api.HasRegs T P R) (htexts : api.TextsFit T) {ids : List VmReg}
    {bufs : List Bytes} {sizes : List VmSize} (hne : ids ≠ []) (hlen : sizes.length = ids.length)
    (hbufs : bufs.map List.length = sizes.map UInt64.toNat) (hfit : ∀ id ∈ ids, T.Fits id)
    (hdb : db.RegsOf T P fun _ => True) (is : Bytes) : ValuesEnd T P ids sizes
      ((DataClient.getRegs (exchange api udp) ids bufs sizes).on ⟨db, is⟩) := by
  have hids : ids.length ≠ 0 := fun h => hne (List.length_eq_zero_iff.mp h)
  have hsizes : sizes ≠ [] := fun h => hids (hlen ▸ h ▸ rfl)
  have hle : ids.length % 65536 ≤ ids.length := Nat.mod_le ..
  have hdeclared : (declaredSizes ids.length sizes).length = ids.length := by
    unfold declaredSizes
    split
    · exact List.length_replicate
    · exact hlen
  unfold DataClient.getRegs
  rw [if_neg hids]
  rcases ImplCall.declaredSizes_cases hsizes hdeclared with ⟨s, hone, hat, hs⟩ | ⟨hone, hs⟩
  · have hsend : @ForValues .getRegs ids sizes bufs ⟨ids.length.toUInt16, s, ids, bufs⟩
        ⟨0, 0, [], []⟩ := by
      have hrows : (@Req.cut .getRegs ⟨ids.length.toUInt16, s, ids, bufs⟩).regRows =
          sentRows ids sizes := by
        rw [sentRows, hs, List.zip, List.take_zipWith, List.take_replicate, Nat.min_eq_left hle,
          ← ImplCall.toNat_narrow]
        rfl
      refine ⟨.inl rfl, ⟨?_, List.length_replicate, fun row hrow => ?_⟩, hrows, rfl, fun h => ?_⟩
      · exact List.length_take_of_le ((ImplCall.toNat_narrow _).trans_le hle)
      · rw [List.eq_of_mem_replicate hrow, length_blanks]
        rfl
      · exact ImplCall.fixed_cut_counted ⟨hs ▸ hdeclared, by rw [← hs, h, hbufs]⟩
    rw [hone, hat]
    exact hsend.ends hvm htexts rfl hbufs hlen hfit hdb is fun _ => rfl
  · have hsend : @ForValues .getRegsVar ids sizes bufs ⟨ids.length.toUInt16, ids, sizes, bufs⟩
        ⟨0, [], [], []⟩ := by
      have hrows : (@Req.cut .getRegsVar ⟨ids.length.toUInt16, ids, sizes, bufs⟩).regRows =
          sentRows ids sizes := by
        rw [sentRows, hs, List.zip, List.take_zipWith, ← ImplCall.toNat_narrow]
        rfl
      refine ⟨.inr rfl, ⟨?_, ?_, ?_⟩, hrows, rfl, fun h => ?_⟩
      · exact List.length_take_of_le ((ImplCall.toNat_narrow _).trans_le hle)
      · exact List.length_take_of_le ((ImplCall.toNat_narrow _).trans_le (hlen ▸ hle))
      · exact blankBufs_var _
      · exact ImplCall.var_cut_counted ⟨hlen, hbufs⟩
    rw [hone]
    exact hsend.ends hvm htexts rfl hbufs hlen hfit hdb is fun _ => rfl

end Request

end Remote

end Odb
