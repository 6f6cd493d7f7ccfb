import Odb.Client.Idle
import Odb.Server.Breakpoints
import Odb.Server.SafeCalls

/-!
# Which batches are transmitted as a whole

* `ImplCall.applied`: a batch that fits does and returns what its elements do, one after the other.
* `ImplCall.sendReq_serve`: a remote call does what the server does with the request that is cut.
* `ImplCall.exists_accepts`, `ImplCall.serve_refused`: a server that accepts it, or none that does.
* `ImplCall.whole_iff`: the batches that every server reads and applies as a whole, or refuses.
* `ImplCall.addBreakpoints_truncated`: one of which nothing is transmitted.
-/

namespace Odb

open Prog Serial DataClientHandler

/-! ## Breakpoints -/

namespace ImplCall

theorem nodup_iff_split {α : Type} {xs : List α} :
    xs.Nodup ↔ ∀ l x l', xs = l ++ x :: l' → x ∉ l := by
  constructor
  · rintro h l x l' rfl hx
    exact (List.nodup_append.mp h).2.2 x hx x List.mem_cons_self rfl
  · intro h
    induction xs using List.reverseRecOn with
    | nil => exact List.nodup_nil
    | append_singleton xs y ih =>
      have hxs := ih fun l x l' hsplit => h l x (l' ++ [y]) (by simp [hsplit])
      have hy := h xs y [] rfl
      refine List.nodup_append.mpr ⟨hxs, by simp, fun a ha b hb hab => ?_⟩
      exact hy (List.mem_singleton.mp hb ▸ hab ▸ ha)

theorem lt_max {a : VmPtr} (h : a ≠ UInt64.ofNat (2 ^ 64 - 1)) : a < UInt64.ofNat (2 ^ 64 - 1) := by
  have hne : a.toNat ≠ 2 ^ 64 - 1 := fun he => h (UInt64.toNat_inj.mp he)
  have := a.toNat_lt
  exact UInt64.lt_iff_toNat_lt.mpr (show a.toNat < 2 ^ 64 - 1 by omega)

section Breakpoints

variable {V : Type} {addrs : List VmPtr}

/-- Every address of a batch that returned is in memory and was not named before. -/
theorem acceptable_of_applied {db : Debugger V} {Ok : List VmPtr → VmPtr → Prop}
    (hok : ∀ l a, Ok l a → a < db.infos.memorySize ∧ a ∉ l) {pre : List VmPtr}
    (h : VMSide.Applied Ok (.ok ()) addrs pre) : ¬ Unacceptable addrs := by
  obtain ⟨-, rfl⟩ | ⟨a, post, msg, hr, -⟩ := h.stop
  · rintro (hdup | hmax)
    · exact hdup (nodup_iff_split.mpr fun l x l' hsplit => (hok l x (h.each l x l' hsplit)).2)
    · obtain ⟨l, l', hsplit⟩ := List.append_of_mem hmax
      have hlt := (hok l _ (h.each l _ l' hsplit)).1
      have := UInt64.lt_iff_toNat_lt.mp hlt
      have := db.infos.memorySize.toNat_lt
      have : (UInt64.ofNat (2 ^ 64 - 1)).toNat = 2 ^ 64 - 1 := rfl
      omega
  · cases hr

/-- A batch of acceptable addresses returns where each can be edited unless it was named before. -/
theorem ok_of_applied {Ok : List VmPtr → VmPtr → Prop} (hacc : ¬ Unacceptable addrs)
    (hok : ∀ l, ∀ a ∈ addrs, a < UInt64.ofNat (2 ^ 64 - 1) → a ∉ l → Ok l a)
    {r : Except Fault Unit} {pre : List VmPtr} (h : VMSide.Applied Ok r addrs pre) : r = .ok () := by
  unfold Unacceptable at hacc
  rw [not_or, not_not] at hacc
  obtain ⟨hr, -⟩ | ⟨a, post, msg, -, hsplit, hno⟩ := h.stop
  · exact hr
  · have hmem : a ∈ addrs := by simp [hsplit]
    refine absurd (hok pre a hmem (lt_max ?_) (nodup_iff_split.mp hacc.1 pre a post hsplit)) hno
    exact fun he => hacc.2 (he ▸ hmem)

/-- The errors of the edits of breakpoints are short. -/
theorem edits_short {f : DbControl → VmPtr → Except Fault DbControl}
    (hf : ∀ c a msg, f c a = .error (.vmError msg) → msg.length ≤ 100) (db : Debugger V) :
    Safe (fun e => ∀ msg, e = .vmError msg → msg.length ≤ 100)
      (addrs.forM fun a => Debugger.onControl (f · a)) db := by
  refine .forM (fun a _ db => Safe.iff_error.mpr fun e he msg hmsg => ?_) db
  subst hmsg
  rw [Debugger.onControl_on] at he
  rcases hfa : f db.toDbControl a with e | c <;> rw [hfa] at he
  · exact hf _ a msg (hfa.trans (congrArg _ (Except.error.inj he)))
  · cases he

theorem addBreakpoint_short (c : DbControl) (a : VmPtr) (msg : Bytes)
    (h : c.addBreakpoint a = .error (.vmError msg)) : msg.length ≤ 100 := by
  unfold DbControl.addBreakpoint throwErr at h
  split at h
  · cases h
    decide
  · split at h <;> cases h
    decide

theorem delBreakpoint_short (c : DbControl) (a : VmPtr) (msg : Bytes)
    (h : c.delBreakpoint a = .error (.vmError msg)) : msg.length ≤ 100 := by
  unfold DbControl.delBreakpoint throwErr at h
  split at h
  · cases h
    decide
  · split at h <;> cases h
    decide

/-- The outcome of a batch that does not return. -/
theorem error_of_applied {c : DbM V Unit} {db db' : Debugger V} {r : Except Fault Unit}
    {Ok : List VmPtr → VmPtr → Prop} {pre : List VmPtr}
    (hok : ∀ l a, Ok l a → a < db.infos.memorySize ∧ a ∉ l)
    (hshort : Safe (fun e => ∀ msg, e = .vmError msg → msg.length ≤ 100) c db)
    (hrun : c.on db = (r, db')) (happ : VMSide.Applied Ok r addrs pre) (h : Unacceptable addrs) :
    ∃ msg, c.on db = (.error (.vmError msg), db') ∧ (what msg).length ≤ maxBytes := by
  have hmsg (msg : Bytes) (hr : r = .error (.vmError msg)) : (what msg).length ≤ maxBytes := by
    have := Safe.iff_error.mp hshort _ ((congrArg Prod.fst hrun).trans hr) msg rfl
    have := (List.takeWhile_sublist (p := (· ≠ 0)) (l := msg)).length_le
    have : maxBytes = 9223372036854775807 := rfl
    unfold what
    omega
  obtain ⟨rfl, -⟩ | ⟨a, post, msg, rfl, -⟩ := happ.stop
  · exact absurd h (acceptable_of_applied hok happ)
  · exact ⟨msg, hrun, hmsg msg rfl⟩

end Breakpoints

/-! ## What a transmitted batch does -/

section Applied

variable {V : Type} {api : VMApi V} {udp : DBClientUpdate} {db : Debugger V}

theorem setRegs_each {ids : List VmReg} {bufs : List Bytes} (h : bufs.length = ids.length) :
    VMSide.setRegs api ids bufs = (ids.zip bufs).forM fun p => Debugger.setReg api p.1 p.2 := by
  unfold VMSide.setRegs
  rw [← h, itemsAt_self, lift_ok, pure_bind]

/-- New buffers of the declared sizes receive the values. -/
theorem getRegs_each {ids : List VmReg} {sizes : List VmSize} (h : sizes.length = ids.length) :
    VMSide.getRegs api ids (sizes.map fun size => blanks UInt8 size.toNat) =
      (ids.zip sizes).mapM fun p => readReg api p.1 p.2 := by
  have hlen : (sizes.map fun size => blanks UInt8 size.toNat).length = ids.length := by
    rw [List.length_map, h]
  unfold VMSide.getRegs
  rw [← hlen, itemsAt_self, lift_ok, pure_bind, VMSide.fill_eq (by simp [hlen]),
    List.zip_map_right, List.mapM_map]
  rfl

theorem getRegs_each_lengths {ids : List VmReg} {sizes : List VmSize} {vals : List Bytes}
    (h : sizes.length = ids.length)
    (hrun : (((ids.zip sizes).mapM fun p => readReg api p.1 p.2).on db).1 = .ok vals) :
    vals.map List.length = sizes.map UInt64.toNat := by
  rw [← getRegs_each h] at hrun
  have := Debugger.getRegs_lengths (by rw [List.length_map, h]) (Prod.ext hrun rfl)
  rw [this, List.map_map]
  exact List.map_congr_left fun size _ => length_blanks

/-- The registers of a batch that fits, into new buffers of the declared sizes. -/
theorem getRegs_applied {ids : List VmReg} {bufs : List Bytes} {regsSize : List VmSize}
    (hcall : (getRegs ids bufs regsSize).Batch) (hcount : ids.length < 65536)
    (hroom : (getRegs ids bufs regsSize).total ≤ maxBytes) :
    Remote.Refines (fun _ => True) (fun vals => vals) ((getRegs ids bufs regsSize).each api)
      (DataClient.getRegs (Remote.exchange api udp) ids bufs regsSize) db := by
  obtain ⟨hsize, hlen, hbufs⟩ := hcall
  have hvals {vals : List Bytes} := @getRegs_each_lengths V api db _ _ vals hlen
  unfold DataClient.getRegs
  by_cases hne : ids.length = 0
  · obtain rfl := List.length_eq_zero_iff.mp hne
    obtain rfl : bufs = [] := by
      have := congrArg List.length hbufs
      rwa [List.length_map, List.length_map, hlen, List.length_nil, List.length_eq_zero_iff] at this
    exact Remote.refines_pure rfl
  rw [if_neg hne]
  rcases declaredSizes_cases (hsize fun h => hne (h ▸ rfl)) hlen with
    ⟨s, hone, hat, hs⟩ | ⟨hone, hs⟩
  · rw [hone, hat]
    have hsum : (ids.map fun _ => s.toNat).sum ≤ maxBytes := by
      have := hroom
      rw [total, hs] at this
      simpa using this
    have hmap (rows : List Bytes)
        (h : rows.map List.length = (declaredSizes ids.length regsSize).map UInt64.toNat) :
        ReqFixed.Shaped ⟨ids.length.toUInt16, s, ids, rows⟩ :=
      Remote.fixed_shaped hcount (h.trans (by rw [hs]; simp)) hsum
    refine (Remote.sendReq_refines .getRegs ⟨ids.length.toUInt16, s, ids, bufs⟩
      (fun vals => ⟨ids.length.toUInt16, s, ids, vals⟩) (by decide) rfl
      ⟨hmap bufs hbufs, Remote.fixed_room hcount hsum⟩ ?_
      fun vals hrun _ => ⟨hmap vals (hvals hrun), rfl, rfl⟩).map fun req => req.bufs
    have hblank : ReqFixed.blankBufs ⟨ids.length.toUInt16, s, ids, bufs⟩ =
        (declaredSizes ids.length regsSize).map fun size => blanks UInt8 size.toNat := by
      rw [hs, List.map_replicate, ReqFixed.blankBufs, Remote.toNat_length hcount]
    rw [← getRegs_each hlen, ← hblank]
    exact on_bind_pure _ _ _
  · rw [hone]
    rw [total, hs] at hroom
    have hmap (rows : List Bytes)
        (h : rows.map List.length = (declaredSizes ids.length regsSize).map UInt64.toNat) :
        ReqVar.Shaped ⟨ids.length.toUInt16, ids, regsSize, rows⟩ :=
      Remote.var_shaped hcount (hs ▸ hlen) (hs ▸ h) hroom
    refine (Remote.sendReq_refines .getRegsVar ⟨ids.length.toUInt16, ids, regsSize, bufs⟩
      (fun vals => ⟨ids.length.toUInt16, ids, regsSize, vals⟩) (by decide) rfl
      ⟨hmap bufs hbufs, hroom⟩ ?_
      fun vals hrun _ => ⟨hmap vals (hvals hrun), rfl, rfl⟩).map fun req => req.bufs
    rw [← getRegs_each hlen, hs]
    exact on_bind_pure _ _ _

theorem setRegs_applied {ids : List VmReg} {bufs : List Bytes} {regsSize : List VmSize}
    (hcall : (setRegs ids bufs regsSize).Batch) (hcount : ids.length < 65536)
    (hroom : (setRegs ids bufs regsSize).total ≤ maxBytes) :
    Remote.Refines (fun _ => True) (fun u => u) ((setRegs ids bufs regsSize).each api)
      (DataClient.setRegs (Remote.exchange api udp) ids bufs regsSize) db := by
  obtain ⟨hsize, hlen, hbufs⟩ := hcall
  have hrows : bufs.length = ids.length := by simpa [hlen] using congrArg List.length hbufs
  rw [each, ← setRegs_each hrows]
  refine Remote.refines_setRegs fun hne => ?_
  rw [total] at hroom
  rcases declaredSizes_cases (hsize fun h => hne (h ▸ rfl)) hlen with
    ⟨s, hone, hat, hs⟩ | ⟨hone, hs⟩ <;> rw [hs] at hbufs hroom
  · have hsum : (ids.map fun _ => s.toNat).sum ≤ maxBytes := by simpa using hroom
    exact .inl ⟨s, hone, hat, Remote.fixed_shaped hcount (hbufs.trans (by simp)) hsum,
      Remote.fixed_room hcount hsum⟩
  · exact .inr ⟨hone, Remote.var_shaped hcount (hs ▸ hlen) hbufs hroom, hroom⟩

/-- A batch that fits does and returns what its elements do, one after the other. -/
theorem applied {α : Type} {call : ImplCall α} (hcall : call.Batch) (hfits : call.Fits16)
    (hroom : call.total ≤ maxBytes) :
    Remote.Refines call.Fits call.sent (call.each api) (Remote.impl api udp call) db := by
  have hcount {β : Type} {f : β → Elem} {xs : List β} (h : (xs.map f).length < 65536) :
      xs.length < 65536 := by rwa [List.length_map] at h
  obtain ⟨hn, hblock⟩ := hfits
  cases call with
  | connect | stop | checkStopped | getSymbolsByAddr | getCodeText | resume => exact hcall.elim
  | getRegs ids bufs regsSize =>
    exact getRegs_applied hcall ((length_zipWith_declared hcall.2).symm.trans_lt hn) hroom
  | setRegs ids bufs regsSize =>
    exact setRegs_applied hcall ((length_zipWith_bufs hcall.2).symm.trans_lt hn) hroom
  | getRegsInfos ids outs =>
    rw [each, ← VMSide.fill_eq hcall.len]
    exact Remote.refines_getRegsInfos ⟨hcount hn, hcall.len, hcall.fits⟩
  | findRegsIds names outs =>
    rw [each, ← VMSide.fill_eq hcall.len]
    exact Remote.refines_findRegsIds ⟨Nat.le_of_lt_succ hblock, hcall.len, hcall.fits⟩
  | readMem addrs sizes bufs =>
    have hlt : addrs.length < 65536 := (length_zipWith_declared hcall).symm.trans_lt hn
    have := @Remote.refines_readMem _ api udp db _ _ _ ⟨hlt, hcall.len, hcall.bufs, hroom⟩
    rw [VMSide.readMem_eq hcall.len hcall.bufs] at this
    exact this
  | writeMem addrs sizes bufs =>
    have hlt : addrs.length < 65536 := (length_zipWith_bufs hcall).symm.trans_lt hn
    have hrows : bufs.length = addrs.length := by
      simpa [hcall.len] using congrArg List.length hcall.bufs
    rw [each, ← VMSide.writeMem_rows hcall.len.ge hrows]
    exact Remote.refines_writeMem ⟨hlt, hcall.len, hcall.bufs, hroom⟩
  | getSymbolsByIds ids outs =>
    rw [each, ← VMSide.fill_eq hcall.len]
    exact Remote.refines_getSymbolsByIds ⟨hcount hn, hcall.len, hcall.fits⟩
  | getSymbolsByNames names outs =>
    rw [each, ← VMSide.fill_eq hcall.len]
    exact Remote.refines_getSymbolsByNames ⟨Nat.le_of_lt_succ hblock, hcall.len, hcall.fits⟩
  | addBreakpoints addrs => exact Remote.refines_addBreakpoints (hcount hn)
  | delBreakpoints addrs => exact Remote.refines_delBreakpoints (hcount hn)

/-- A batch without elements fits. -/
theorem fits_of_empty {α : Type} {call : ImplCall α} (hcall : call.Batch) (h : call.elements = []) :
    call.Fits16 ∧ call.total ≤ maxBytes := by
  have hnames : call.names = [] := List.length_eq_zero_iff.mp
    (Nat.le_zero.mp (by simpa [h] using names_le hcall))
  refine ⟨⟨by rw [h]; decide, by rw [hnames]; decide⟩, ?_⟩
  have hnil {n : Nat} {sizes : List VmSize} {bufs : List Bytes} (hb : BatchBufs n sizes bufs)
      (hn : n = 0) : (sizes.map UInt64.toNat).sum ≤ maxBytes := by
    rw [List.length_eq_zero_iff.mp (hb.len.trans hn)]
    exact Nat.zero_le _
  have hlen := congrArg List.length h
  cases call with
  | getRegs => exact hnil hcall.2 ((length_zipWith_declared hcall.2).symm.trans hlen)
  | setRegs => exact hnil hcall.2 ((length_zipWith_bufs hcall.2).symm.trans hlen)
  | readMem => exact hnil hcall ((length_zipWith_declared hcall).symm.trans hlen)
  | writeMem => exact hnil hcall ((length_zipWith_bufs hcall).symm.trans hlen)
  | _ => exact Nat.zero_le _

end Applied

/-! ## Which batches are whole -/

section Main

variable {V : Type} {api : VMApi V} {udp : DBClientUpdate} {db db' : Debugger V} {ty : ReqType}
  {r r₀ s : Req ty}

/-- The remote call of a request that its count cuts, by what the server does with what is left. -/
theorem sendReq_serve (hty : ty ≠ .stop) (hfresh : fresh udp ty = some r₀) (h : r.cut.Roomy)
    (is : Bytes) :
    (∀ s db', (serve api (r.cut.received r₀)).on db = (.ok s, db') → s.Shaped ∧ r.cut.SameCounts s →
      ∃ a t, (DataClient.sendReq (Remote.exchange api udp) r).on ⟨db, is⟩ = (.ok a, t)) ∧
    (∀ msg db', (serve api (r.cut.received r₀)).on db = (.error (.vmError msg), db') →
      (what msg).length ≤ maxBytes →
      ∃ t, (DataClient.sendReq (Remote.exchange api udp) r).on ⟨db, is⟩ =
        (.error (.vmError (what msg)), t)) := by
  have hserve : (serve api (r.cut.received r₀)).on db =
      (((serve api (r.cut.received r₀)).on db).1.map id,
        ((serve api (r.cut.received r₀)).on db).2) := by
    rcases (serve api (r.cut.received r₀)).on db with ⟨_ | _, _⟩ <;> rfl
  have href := @Remote.sendReq_refines _ _ api udp (fun s => s.Shaped ∧ r.cut.SameCounts s) _ db ty
    r.cut id _ hty hfresh h hserve fun _ _ hs => hs
  have hcut := congrArg (fun c => c.on (⟨db, is⟩ : Remote V))
    (DataClient.sendReq_cut (Remote.exchange api udp) r)
  simp only [on_map] at hcut
  rcases hrun : (DataClient.sendReq (Remote.exchange api udp) r).on ⟨db, is⟩ with ⟨_ | a, t⟩ <;>
    rw [hrun] at hcut
  · refine ⟨fun s db' hserve hs => ?_, fun msg db' hserve hmsg => ?_⟩
    · obtain ⟨is', hok⟩ := (href is).1 s db' hserve hs
      cases hcut.symm.trans hok
    · cases hcut.symm.trans ((href is).2.1 msg db' hserve hmsg)
      exact ⟨_, rfl⟩
  · refine ⟨fun _ _ _ _ => ⟨a, t, rfl⟩, fun msg db' hserve hmsg => ?_⟩
    cases hcut.symm.trans ((href is).2.1 msg db' hserve hmsg)

/-- A debugger of the whole memory. -/
def emptyDb (breakpts : Std.TreeSet VmPtr) : Debugger Unit :=
  { Debugger.new () 0 with
    infos := { Debugger.noInfos with memorySize := UInt64.ofNat (2 ^ 64 - 1) }
    breakpts }

theorem emptyDb_loaded (breakpts : Std.TreeSet VmPtr) : Idle.Loaded (emptyDb breakpts) :=
  ⟨by simp [emptyDb, Debugger.new], by simp [emptyDb, Debugger.new]⟩

theorem addBreakpoints_accepted {addrs : List VmPtr} (h : ¬ Unacceptable addrs) :
    ∃ db db' : Debugger Unit, (VMSide.addBreakpoints addrs).on db = (.ok (), db') := by
  obtain ⟨r, pre, hrun, happ⟩ := VMSide.addBreakpoints_applied (emptyDb ∅) addrs
  obtain rfl := ok_of_applied h (fun l a _ hlt hl => ⟨hlt, by simp [emptyDb], hl⟩) happ
  exact ⟨_, _, hrun⟩

theorem delBreakpoints_accepted {addrs : List VmPtr} (h : ¬ Unacceptable addrs) :
    ∃ db db' : Debugger Unit, (VMSide.delBreakpoints addrs).on db = (.ok (), db') := by
  obtain ⟨r, pre, hrun, happ⟩ :=
    VMSide.delBreakpoints_applied (emptyDb (addrs.foldl Std.TreeSet.insert ∅)) addrs
  obtain rfl := ok_of_applied h (fun l a ha hlt hl =>
    ⟨hlt, (VMSide.mem_foldl_insert ∅ addrs a).mpr (.inr ha), hl⟩) happ
  exact ⟨_, _, hrun⟩

/-- A server that accepts what the count of a request reaches. -/
theorem exists_accepts (hne : r.elements ≠ []) (hty : ty ≠ .readMem ∧ ty ≠ .writeMem)
    (h : r.cut.Shaped) (href : ¬ r.cut.Refused) (r₀ : Req ty) :
    ∃ db db' : Debugger Unit, ∃ s : Req ty,
      (serve Idle.vm (r.cut.received r₀)).on db = (.ok s, db') ∧ s.Shaped ∧ r.cut.SameCounts s := by
  by_cases hbkps : ty = .addBkps ∨ ty = .delBkps
  · rcases hbkps with rfl | rfl
    · obtain ⟨db, db', hrun⟩ := addBreakpoints_accepted href
      exact ⟨db, db', r.cut, on_bind_ok hrun _, h, trivial⟩
    · obtain ⟨db, db', hrun⟩ := delBreakpoints_accepted href
      exact ⟨db, db', r.cut, on_bind_ok hrun _, h, trivial⟩
  · have hrun := Idle.serve_returns r₀ hne h hty (not_or.mp hbkps) (emptyDb ∅) (emptyDb_loaded ∅)
    rcases hserve : (serve Idle.vm (r.cut.received r₀)).on (emptyDb ∅) with ⟨_ | s, db'⟩ <;>
      rw [hserve] at hrun
    · exact hrun.elim
    · exact ⟨_, db', s, hserve, hrun.2⟩

/-- No server accepts refused breakpoints. -/
theorem serve_refused (href : r.Refused) (db : Debugger V) :
    ∃ msg db', (serve api (r.received r₀)).on db = (.error (.vmError msg), db') ∧
      (what msg).length ≤ maxBytes := by
  cases ty with
  | addBkps =>
    obtain ⟨res, pre, hrun, happ⟩ := VMSide.addBreakpoints_applied db r.inAddrs
    obtain ⟨msg, hmsg, hlen⟩ := error_of_applied (fun l a h => ⟨h.1, h.2.2⟩)
      (edits_short addBreakpoint_short db) hrun happ href
    exact ⟨msg, _, on_bind_error hmsg _, hlen⟩
  | delBkps =>
    obtain ⟨res, pre, hrun, happ⟩ := VMSide.delBreakpoints_applied db r.inAddrs
    obtain ⟨msg, hmsg, hlen⟩ := error_of_applied (fun l a h => ⟨h.1, h.2.2⟩)
      (edits_short delBreakpoint_short db) hrun happ href
    exact ⟨msg, _, on_bind_error hmsg _, hlen⟩
  | other => exact r.elim
  | _ => exact href.elim

/-- A request on whose bytes the server fails. -/
theorem sendReq_fault {word rest : Bytes} {e : Fault} (he : ∀ msg, e ≠ .vmError msg)
    (hty : ty ≠ .stop) (hfresh : fresh udp ty = some r₀)
    (hreq : DataClient.request r = .ok (ty.toByte :: word))
    (hread : (rh.serverReadRequest r₀).on word = (.error e, rest)) (t : Remote V) :
    ((DataClient.sendReq (Remote.exchange api udp) r).on t).1 = .error e := by
  have hswitch : runSwitch api udp ty = reply api r₀ := by
    unfold runSwitch
    cases ty with
    | stop => exact absurd rfl hty
    | _ => simp only [hfresh]
  have hrun : (runCommand api udp).on ⟨t.db, ty.toByte :: word, []⟩ =
      (.error e, ⟨t.db, rest, []⟩) := by
    unfold runCommand
    rw [answer_on, on_handle, hswitch, reply, on_bind_error (onIs_on hread)]
    cases e with
    | vmError msg => exact absurd rfl (he msg)
    | stdException | assertFail | undefined => rfl
  have hexch : (Remote.exchange api udp (ty.toByte :: word)).on t =
      (.error e, ⟨t.db, t.is⟩) := by
    unfold Remote.exchange
    rw [on_of, hrun]
  unfold DataClient.sendReq
  rw [hreq, on_bind_ok (on_lift _ _), on_bind_error hexch]

variable {α : Type} {call : ImplCall α}

/-- A remote call throws exactly if its request does. -/
theorem Request.throws_iff {r : Req ty} (hr : call.Request r) (t : Remote V) (e : Fault) :
    ((Remote.impl api udp call).on t).1 = .error e ↔
      ((DataClient.sendReq (Remote.exchange api udp) r).on t).1 = .error e := by
  obtain ⟨out, himpl⟩ := hr.impl
  unfold Remote.impl
  rw [himpl, on_bind]
  rcases (DataClient.sendReq (Remote.exchange api udp) r).on t with ⟨_ | _, _⟩
  · constructor <;> rintro ⟨⟩ <;> rfl
  · exact iff_of_false nofun nofun

/-- The server fails on a request whose rows no buffer can hold. -/
theorem Request.faults (hr : call.Request r) (hblock : blockSize r.cut.sentNames < 65536)
    (hroom : maxBytes < r.cut.total) (r₀ : Req ty) :
    ∃ word rest e, DataClient.request r = .ok (ty.toByte :: word) ∧ (∀ msg, e ≠ .vmError msg) ∧
      (rh.serverReadRequest r₀).on word = (.error e, rest) := by
  obtain ⟨word, hw, hread⟩ := RequestHandler.breaks_request r₀ (hr.counted hblock) hroom
  obtain ⟨e, he, rest, hread⟩ := hread []
  rw [List.append_nil] at hread
  refine ⟨word, rest, e, request_of_cut hw, fun msg hmsg => ?_, hread⟩
  rcases he with ⟨rfl, -⟩ | ⟨rfl, -⟩ <;> cases hmsg

/-- A call on whose request the server fails is not whole. -/
theorem Request.not_whole (hr : call.Request r) (hne : call.elements ≠ [])
    (hr₀ : DataClientHandler.fresh Serial.blank ty = some r₀) {word rest : Bytes} {e : Fault}
    (hreq : DataClient.request r = .ok (ty.toByte :: word)) (he : ∀ msg, e ≠ .vmError msg)
    (hread : (rh.serverReadRequest r₀).on word = (.error e, rest)) : ¬ call.Whole := by
  intro hwhole
  rcases hwhole Unit Idle.vm Serial.blank ⟨emptyDb ∅, []⟩ with ⟨msg, hthrow⟩ | ⟨htrans, -⟩
  · rw [hr.throws_iff, sendReq_fault he hr.handled.1 hr₀ hreq hread] at hthrow
    exact he msg (Except.error.inj hthrow)
  · obtain ⟨r', rest', hread', -⟩ := hr.read_of_transmitted hne hreq hr₀ htrans
    cases hread.symm.trans hread'

/-- A batch that is transmitted as a whole fits. -/
theorem Request.fits_of_whole (hr : call.Request r) (hcall : call.Batch) (hne : call.elements ≠ [])
    (hwhole : call.Whole) (href : ¬ call.Refused) : call.Fits16 ∧ call.total ≤ maxBytes := by
  obtain ⟨r₀, hr₀⟩ := hr.fresh Serial.blank
  by_cases hblock : blockSize r.cut.sentNames < 65536
  · by_cases hroom : r.cut.total ≤ maxBytes
    · have hroomy := hr.roomy hblock hroom
      obtain ⟨db, db', s, hserve, hs⟩ := exists_accepts (hr.elements ▸ hne) hr.handled.2
        hroomy.shaped (fun h => href (hr.refused.mpr h)) r₀
      rcases hwhole Unit Idle.vm Serial.blank ⟨db, []⟩ with ⟨msg, hthrow⟩ | ⟨htrans, -⟩
      · rw [hr.throws_iff] at hthrow
        obtain ⟨a, t, hok⟩ := (sendReq_serve hr.handled.1 hr₀ hroomy []).1 s db' hserve hs
        rw [hok] at hthrow
        cases hthrow
      · have hfits := (hr.transmitted_iff hcall hne hblock hroom _).mp htrans
        exact ⟨hfits, hr.total hfits.1 ▸ hroom⟩
    · obtain ⟨word, rest, e, hreq, he, hread⟩ := hr.faults hblock (Nat.lt_of_not_le hroom) r₀
      exact absurd hwhole (hr.not_whole hne hr₀ hreq he hread)
  · obtain ⟨word, rest, hreq, hread⟩ := hr.undefined hcall (Nat.le_of_not_lt hblock) r₀
    exact absurd hwhole (hr.not_whole hne hr₀ hreq (fun msg h => by cases h) hread)

/-- Breakpoints that no debugger accepts are refused by every server. -/
theorem Request.throws_refused (hr : call.Request r) (href : call.Refused) (t : Remote V) :
    ∃ msg, ((Remote.impl api udp call).on t).1 = .error (.vmError msg) := by
  have hrref := hr.refused.mp href
  have hblock : blockSize r.cut.sentNames < 65536 ∧ r.cut.total ≤ maxBytes := by
    cases ty with
    | addBkps | delBkps => exact ⟨Nat.zero_lt_succ _, Nat.zero_le _⟩
    | other => exact r.elim
    | _ => exact hrref.elim
  obtain ⟨r₀, hr₀⟩ := hr.fresh udp
  obtain ⟨msg, db', hserve, hlen⟩ := @serve_refused V api ty r.cut r₀ hrref t.db
  obtain ⟨t', hthrow⟩ :=
    (sendReq_serve hr.handled.1 hr₀ (hr.roomy hblock.1 hblock.2) t.is).2 msg db' hserve hlen
  exact ⟨what msg, (hr.throws_iff ..).mpr (congrArg Prod.fst hthrow)⟩

/-- A batch is applied as a whole, or refused, by every server, exactly if its count and the block
of its names fit in 16 bits and its buffers in an object, or it consists of breakpoints that no
debugger accepts. -/
theorem whole_iff (hcall : call.Batch) :
    call.Whole ↔ call.Fits16 ∧ call.total ≤ maxBytes ∨ call.Refused := by
  by_cases hne : call.elements = []
  · obtain ⟨hfits, hroom⟩ := fits_of_empty hcall hne
    exact iff_of_true (fun _ _ _ _ => .inr ⟨.inl hne, applied hcall hfits hroom⟩) (.inl ⟨hfits, hroom⟩)
  obtain ⟨ty, r, hr⟩ := exists_request hcall hne
  constructor
  · intro hwhole
    by_cases href : call.Refused
    · exact .inr href
    · exact .inl (hr.fits_of_whole hcall hne hwhole href)
  · rintro (⟨hfits, hroom⟩ | href) V api udp s
    · have hblock : blockSize r.cut.sentNames < 65536 := by
        rw [cut_names, hr.names]
        exact Nat.lt_of_le_of_lt (blockSize_take ..) hfits.2
      have htrans := hr.transmitted_iff hcall hne hblock ((hr.total hfits.1).symm ▸ hroom) udp
      exact .inr ⟨htrans.mpr hfits, applied hcall hfits hroom⟩
    · exact .inl (hr.throws_refused href s)

/-- Two blocks of memory of one and two bytes. -/
theorem whole_iff_two : (readMem [0, 16] [1, 2] [[0], [0, 0]]).Whole := by
  have hbatch : (readMem [0, 16] [1, 2] [[0], [0, 0]]).Batch := ⟨rfl, rfl⟩
  exact (whole_iff hbatch).mpr (.inl ⟨⟨by decide, by decide⟩, by decide⟩)

/-- 65536 breakpoints: the call returns, the server has read none of them and set none. -/
theorem addBreakpoints_truncated :
    (addBreakpoints (List.replicate 65536 7)).Batch ∧
      (∃ is, (Remote.impl Idle.vm Serial.blank (addBreakpoints (List.replicate 65536 7))).on
        ⟨emptyDb ∅, []⟩ = (.ok (), ⟨emptyDb ∅, is⟩)) ∧
      ¬ (addBreakpoints (List.replicate 65536 7)).Transmitted Serial.blank ∧
      ¬ (addBreakpoints (List.replicate 65536 7)).Whole := by
  have hlen : (List.replicate 65536 (7 : VmPtr)).length = 65536 := List.length_replicate
  generalize List.replicate 65536 (7 : VmPtr) = addrs at hlen
  have hcut : @Req.cut .addBkps ⟨addrs.length.toUInt16, addrs⟩ = ⟨0, []⟩ := by
    rw [hlen]
    rfl
  have hreturns : ∃ is, (Remote.impl Idle.vm Serial.blank (addBreakpoints addrs)).on
      ⟨emptyDb ∅, []⟩ = (.ok (), ⟨emptyDb ∅, is⟩) := by
    have hrun := congrArg (fun c => c.on (⟨emptyDb ∅, []⟩ : Remote Unit))
      (@DataClient.sendReq_cut .addBkps _ (Remote.exchange Idle.vm Serial.blank)
        ⟨addrs.length.toUInt16, addrs⟩)
    rw [hcut] at hrun
    have hempty : ∃ is, (@DataClient.sendReq _ (Remote.exchange Idle.vm Serial.blank) .addBkps
        ⟨0, []⟩).on ⟨emptyDb ∅, []⟩ = (.ok ⟨0, []⟩, ⟨emptyDb ∅, is⟩) := ⟨_, rfl⟩
    obtain ⟨is, hempty⟩ := hempty
    refine ⟨is, ?_⟩
    simp only [hempty, on_map] at hrun
    show (DataClient.addBreakpoints _ addrs).on _ = _
    unfold DataClient.addBreakpoints
    rcases hsend : (@DataClient.sendReq _ (Remote.exchange Idle.vm Serial.blank) .addBkps
      ⟨addrs.length.toUInt16, addrs⟩).on ⟨emptyDb ∅, []⟩ with ⟨_ | req, t⟩
    · rw [hsend] at hrun
      cases hrun
    · rw [hsend] at hrun
      obtain rfl : _ = t := (Prod.mk.inj hrun).2
      rw [on_bind_ok hsend]
      rfl
  have hlost : ¬ (addBreakpoints addrs).Transmitted Serial.blank := by
    intro h
    have hne : (addBreakpoints addrs).elements ≠ [] := by
      intro hnil
      have := congrArg List.length hnil
      rw [elements, List.length_map, hlen] at this
      cases this
    have hfits := ((addBreakpoints_request addrs).transmitted_iff trivial hne (Nat.zero_lt_succ _)
      (Nat.zero_le _) _).mp h
    have := hfits.1
    rw [elements, List.length_map, hlen] at this
    exact absurd this (Nat.lt_irrefl _)
  refine ⟨trivial, hreturns, hlost, fun h => ?_⟩
  rcases h Unit Idle.vm Serial.blank ⟨emptyDb ∅, []⟩ with ⟨msg, hthrow⟩ | ⟨htrans, -⟩
  · obtain ⟨is, hrun⟩ := hreturns
    rw [hrun] at hthrow
    cases hthrow
  · exact hlost htrans

end Main

end ImplCall

end Odb
