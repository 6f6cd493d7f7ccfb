import Odb.Client.Shown
import Odb.Client.Whole
import Odb.Server.AnyRequest

/-!
# The requests about registers of a client in another process

A count of 16 bits cuts a request.

* `VMApi.TextsFit`: the texts of the VM are strings.
* `Terse`: programs whose errors have texts that fit in strings.
* `Remote.refines_getRegsInfos_cut`, `Remote.refines_setRegs_cut`: the calls do what the direct ones
  do for the registers that their counts reach.
-/

namespace Odb

open Prog Serial

/-- The names and the errors of the VM fit in strings. -/
structure VMApi.TextsFit {V : Type} (api : VMApi V) (T : RegTable) : Prop where
  names : ∀ id d, T.info id = some d → d.name.length ≤ maxBytes
  getReg : ∀ idx infos valOnly vm msg, (api.getReg idx infos valOnly vm).1 = .error msg →
    msg.length ≤ maxBytes
  setReg : ∀ idx newVal vm msg, (api.setReg idx newVal vm).1 = .error msg → msg.length ≤ maxBytes

/-! ## Errors with short texts -/

/-- The text of a `VMApi::Error` fits in a string. -/
def Fault.Fits (e : Fault) : Prop := ∀ msg, e = .vmError msg → msg.length ≤ maxBytes

section Texts

variable {V : Type} {api : VMApi V} {T : RegTable} {α β : Type}

/-- `c` throws only such errors. -/
abbrev Terse (c : DbM V α) : Prop := Spec (fun _ => True) c (fun _ _ => True) fun e _ => e.Fits

theorem Terse.bind {c : DbM V α} {f : α → DbM V β} (hc : Terse c) (hf : ∀ a, Terse (f a)) :
    Terse (c >>= f) := Spec.bind hc hf

theorem Terse.lift {x : Except Fault α} (h : ∀ e, x = .error e → ¬ Caught e) :
    Terse (Prog.lift x : DbM V α) := by
  intro db _
  rcases x with e | a
  · rintro msg rfl
    exact absurd trivial (h _ rfl)
  · trivial

theorem Terse.callVM {f : V → Except Bytes α × V}
    (h : ∀ vm msg, (f vm).1 = .error msg → msg.length ≤ maxBytes) : Terse (Debugger.callVM f) := by
  intro db _
  unfold Debugger.callVM
  rw [on_of]
  rcases hrun : (f db.vm).1 with msg | a
  · intro msg' hmsg
    cases hmsg
    exact h _ _ hrun
  · trivial

theorem resize_not_caught {max n : Nat} {xs : List α} {x : α} (e : Fault)
    (h : resize max xs n x = .error e) : ¬ Caught e := by
  unfold resize at h
  split at h <;> cases h
  exact id

theorem itemsAt_not_caught {n : Nat} {xs : List α} (e : Fault) (h : itemsAt xs n = .error e) :
    ¬ Caught e := by
  unfold itemsAt at h
  split at h <;> cases h
  exact id

section Calls

variable (htexts : api.TextsFit T)
include htexts

theorem terse_getRegInfos (id : VmReg) : Terse (Debugger.getRegInfos api id) := by
  unfold Debugger.getRegInfos Debugger.loadReg
  refine .bind (.bind (fun _ _ => trivial) fun db => ?_) fun _ => ?_
  · split
    · exact fun _ _ => trivial
    · refine .bind (.callVM fun vm msg h => htexts.getReg _ _ _ _ _ h) fun infos => ?_
      exact .bind (.lift resize_not_caught) fun val _ _ => trivial
  · intro db _
    unfold Debugger.findReg
    rw [on_bind_ok (on_get db)]
    rcases db.mapRegs[id]? with _ | infos
    · rintro msg ⟨⟩
    · trivial

theorem terse_getRegsInfos (ids : List VmReg) (outInfos : List RegInfos) :
    Terse (VMSide.getRegsInfos api ids outInfos) := by
  unfold VMSide.getRegsInfos VMSide.fill
  refine .bind (.lift itemsAt_not_caught) fun _ => .bind ?_ fun _ _ _ => trivial
  refine Spec.conseq (Spec.mapM (I := fun _ => True) (R := fun _ _ => True) ids fun id _ => ?_)
    (fun _ h => h) (fun _ _ _ => trivial) fun _ _ h => h
  exact Spec.conseq (terse_getRegInfos htexts id) (fun _ h => h) (fun _ _ _ => ⟨trivial, trivial⟩)
    fun _ _ h => h

theorem terse_setRegs (ids : List VmReg) (bufs : List Bytes) :
    Terse (VMSide.setRegs api ids bufs) := by
  unfold VMSide.setRegs
  refine .bind (.lift itemsAt_not_caught) fun bufs => ?_
  exact Spec.forM (ids.zip bufs) fun row _ =>
    Terse.callVM fun vm msg h => htexts.setReg row.1 row.2 vm msg h

end Calls

end Texts

/-! ## Requests that their counts cut -/

section Cut

variable {V : Type} {api : VMApi V} {udp : DBClientUpdate} {ty : ReqType}

/-- What a request gives from what its cut gives. -/
theorem DataClient.sendReq_uncut {σ : Type} {exchange : Bytes → Prog Fault σ Bytes} {r : Req ty}
    {s s' : σ} :
    (∀ b, (DataClient.sendReq exchange r.cut).on s = (.ok b, s') →
      ∃ a is, (DataClient.sendReq exchange r).on s = (.ok a, s') ∧ a.cut = b ∧
        DataClient.response r is = .ok a) ∧
    ∀ e, (DataClient.sendReq exchange r.cut).on s = (.error e, s') →
      (DataClient.sendReq exchange r).on s = (.error e, s') := by
  rw [DataClient.sendReq_cut, on_map]
  rcases hrun : (DataClient.sendReq exchange r).on s with ⟨e | a, t⟩
  · refine ⟨fun b h => ?_, fun e' h => ?_⟩
    · cases h
    · cases h
      rfl
  · refine ⟨fun b h => ?_, fun e' h => ?_⟩
    · cases h
      obtain ⟨os, s₁, -, hrun⟩ := bind_eq_ok.mp hrun
      obtain ⟨is, s₂, -, hrun⟩ := bind_eq_ok.mp hrun
      obtain ⟨hres, -⟩ := lift_eq_ok.mp hrun
      exact ⟨a, is, rfl, rfl, hres⟩
    · cases h

/-- What a program reads into an object is also read there after the type of the response. -/
theorem DataClient.response_ok {r a : Req ty} {is : Bytes} (h : DataClient.response r is = .ok a) :
    ∃ bs bs', (DataClient.rh.clientReadResponse r).on bs = (.ok a, bs') := by
  unfold DataClient.response readFrom at h
  obtain ⟨resTy, bs, -, h⟩ := bind_eq_ok.mp (Prod.ext h rfl)
  split at h
  · obtain ⟨err, bs', -, h⟩ := bind_eq_ok.mp h
    cases h
  · obtain ⟨_, bs', -, h⟩ := bind_eq_ok.mp h
    exact ⟨bs', _, h⟩

/-- The infos that the count does not reach stay what they were. -/
theorem byIds_rest {r a : ReqByIds VmReg RegInfos} {is : Bytes}
    (h : @DataClient.response .getRegsInfos r is = .ok a) :
    a.outs.drop r.n.toNat = r.outs.drop r.n.toNat ∧ a.n = r.n := by
  obtain ⟨bs, bs', h⟩ := DataClient.response_ok h
  obtain ⟨_, s₀, -, h⟩ := bind_eq_ok.mp h
  obtain ⟨n, s₁, hn, h⟩ := bind_eq_ok.mp h
  obtain ⟨rfl, rfl⟩ := Prod.mk.inj hn |>.imp Except.ok.inj id
  obtain ⟨ids, s₂, -, h⟩ := bind_eq_ok.mp h
  obtain ⟨outs, s₃, houts, h⟩ := bind_eq_ok.mp h
  cases h
  obtain ⟨old, s₄, hold, houts⟩ := bind_eq_ok.mp houts
  obtain ⟨items, s₅, hitems, houts⟩ := bind_eq_ok.mp houts
  cases houts
  have hlen := (length_of_mapM hitems).trans (length_of_itemsAt (lift_eq_ok.mp hold).1)
  rw [toNat_count] at hlen ⊢
  exact ⟨by rw [← hlen, List.drop_left], rfl⟩

namespace Remote

variable {db : Debugger V} {ids : List VmReg}

theorem refines_getRegsInfos_cut {outs : List RegInfos} (hlen : outs.length = ids.length)
    (hfits : ∀ x ∈ outs, LawfulSerial.Fits x.name) :
    Refines (fun infos => ∀ x ∈ infos, LawfulSerial.Fits x.name)
      (fun infos => List.zipWith (fun x y => { x with val := y.val }) infos
        (outs.take (ids.length % 65536)) ++ outs.drop (ids.length % 65536))
      (VMSide.getRegsInfos api (ids.take (ids.length % 65536)) (outs.take (ids.length % 65536)))
      (DataClient.getRegsInfos (exchange api udp) ids outs) db := by
  have hk : (ids.take (ids.length % 65536)).length = ids.length % 65536 :=
    List.length_take_of_le (Nat.mod_le ..)
  have hcount : (ids.take (ids.length % 65536)).length.toUInt16 = ids.length.toUInt16 := by
    apply UInt16.toNat_inj.mp
    rw [ImplCall.toNat_narrow, ImplCall.toNat_narrow, hk, Nat.mod_mod]
  have hargs : IdArgs (fun x : RegInfos => LawfulSerial.Fits x.name)
      (ids.take (ids.length % 65536)) (outs.take (ids.length % 65536)) := by
    refine ⟨hk.trans_lt (Nat.mod_lt _ (by decide)), ?_, fun x hx => hfits x (List.mem_of_mem_take hx)⟩
    rw [hk, List.length_take_of_le (hlen ▸ Nat.mod_le ..)]
  have href := @refines_getRegsInfos _ api udp db _ _ hargs
  have hcut : @Req.cut .getRegsInfos ⟨ids.length.toUInt16, ids, outs⟩ =
      ⟨ids.length.toUInt16, ids.take (ids.length % 65536), outs.take (ids.length % 65536)⟩ := by
    simp only [Req.cut, ReqByIds.cut, ImplCall.toNat_narrow]
  unfold DataClient.getRegsInfos at href ⊢
  rw [hcount, ← hcut] at href
  have hthrow {e : Fault} {t t' : Remote V}
      (h : (DataClient.sendReq (exchange api udp)
        (@Req.cut .getRegsInfos ⟨ids.length.toUInt16, ids, outs⟩) >>= fun req => pure req.outs).on t =
          (.error e, t')) :
      (@DataClient.sendReq _ (exchange api udp) .getRegsInfos ⟨ids.length.toUInt16, ids, outs⟩ >>=
        fun req => pure req.outs).on t = (.error e, t') := by
    rw [on_bind] at h
    rcases hsend : (DataClient.sendReq (exchange api udp)
      (@Req.cut .getRegsInfos ⟨ids.length.toUInt16, ids, outs⟩)).on t with ⟨e' | b, s₁⟩ <;>
      rw [hsend] at h
    · rw [on_bind_error (DataClient.sendReq_uncut.2 e' hsend)]
      exact h
    · cases h
  intro is
  obtain ⟨hok, herr, hfault⟩ := href is
  refine ⟨fun infos db' hrun hinfos => ?_, fun msg db' hrun hmsg => hthrow (herr msg db' hrun hmsg),
    fun e db' hrun he => hthrow (hfault e db' hrun he)⟩
  obtain ⟨is', h⟩ := hok infos db' hrun hinfos
  obtain ⟨b, s₁, hb, h⟩ := bind_eq_ok.mp h
  obtain ⟨a, bytes, ha, rfl, hres⟩ := DataClient.sendReq_uncut.1 b hb
  obtain ⟨houts, rfl⟩ := Prod.mk.inj h
  have houts := Except.ok.inj houts
  obtain ⟨hrest, hn⟩ := byIds_rest hres
  have hk' : a.n.toNat = ids.length % 65536 := by rw [hn, ImplCall.toNat_narrow]
  rw [ImplCall.toNat_narrow] at hrest
  refine ⟨is', ?_⟩
  rw [on_bind_ok ha, on_pure]
  refine congrArg (fun outs => (Except.ok outs, _)) ?_
  dsimp only at houts ⊢
  rw [← houts, ← hrest, ← hk']
  exact (List.take_append_drop _ _).symm

/-- What is left of a request that sets registers, for which there is an answer. -/
theorem refines_unit {r : Req ty} {direct : DbM V Unit}
    (h : Refines (fun _ => True) (fun _ => r.cut) direct
      (DataClient.sendReq (exchange api udp) r.cut) db) :
    Refines (fun _ => True) (fun a => a) direct
      (DataClient.sendReq (exchange api udp) r >>= fun _ => pure ()) db := by
  intro is
  obtain ⟨hok, herr, hfault⟩ := h is
  refine ⟨fun a db' hrun ha => ?_, fun msg db' hrun hmsg => ?_, fun e db' hrun he => ?_⟩
  · obtain ⟨is', hsend⟩ := hok a db' hrun ha
    obtain ⟨b, -, hsend, -, -⟩ := DataClient.sendReq_uncut.1 _ hsend
    exact ⟨is', by rw [on_bind_ok hsend, on_pure]⟩
  · rw [on_bind_error (DataClient.sendReq_uncut.2 _ (herr msg db' hrun hmsg))]
  · rw [on_bind_error (DataClient.sendReq_uncut.2 _ (hfault e db' hrun he))]

theorem refines_setRegs_cut {bufs : List Bytes} {regsSize : List VmSize}
    (hregs : ids ≠ [] → regsSize ≠ [])
    (hbufs : BatchBufs ids.length (declaredSizes ids.length regsSize) bufs)
    (hroom : (bufs.map List.length).sum ≤ maxBytes) :
    Refines (fun _ => True) (fun a => a)
      (VMSide.setRegs api (ids.take (ids.length % 65536)) (bufs.take (ids.length % 65536)))
      (DataClient.setRegs (exchange api udp) ids bufs regsSize) db := by
  have htake : ((bufs.take (ids.length % 65536)).map List.length).sum ≤ maxBytes :=
    (((List.take_sublist _ _).map _).sum_le_sum (by simp)).trans hroom
  unfold DataClient.setRegs
  by_cases hne : ids.length = 0
  · obtain rfl := List.length_eq_zero_iff.mp hne
    exact refines_pure rfl
  rw [if_neg hne]
  rcases ImplCall.declaredSizes_cases (hregs fun h => hne (h ▸ rfl)) hbufs.len with
    ⟨s, hone, hat, hs⟩ | ⟨hone, hs⟩
  · rw [hone, hat]
    have hcounted : (@Req.cut .setRegs ⟨ids.length.toUInt16, s, ids, bufs⟩).Counted :=
      ImplCall.fixed_cut_counted (hs ▸ hbufs)
    have hrows : ((bufs.take (ids.length % 65536)).map List.length).sum =
        (@Req.cut .setRegs ⟨ids.length.toUInt16, s, ids, bufs⟩).total := by
      rw [← ImplCall.toNat_narrow]
      exact ReqFixed.Counted.rows_sum hcounted
    have hroom := hrows ▸ htake
    have hroomy : (@Req.cut .setRegs ⟨ids.length.toUInt16, s, ids, bufs⟩).Roomy :=
      ⟨hcounted.shaped (lt_of_room hroom), hroom⟩
    refine refines_unit (sendReq_refines .setRegs _
      (fun _ => @Req.cut .setRegs ⟨ids.length.toUInt16, s, ids, bufs⟩) (by decide) rfl hroomy ?_
      fun _ _ _ => ⟨hroomy.shaped, rfl, rfl⟩)
    rw [← ImplCall.toNat_narrow]
    exact on_bind_pure _ _ _
  · rw [hone]
    have hcounted : (@Req.cut .setRegsVar ⟨ids.length.toUInt16, ids, regsSize, bufs⟩).Counted :=
      ImplCall.var_cut_counted (hs ▸ hbufs)
    have hrows : ((bufs.take (ids.length % 65536)).map List.length).sum =
        (@Req.cut .setRegsVar ⟨ids.length.toUInt16, ids, regsSize, bufs⟩).total := by
      rw [← ImplCall.toNat_narrow]
      exact ReqVar.Counted.rows_sum hcounted
    have hroom := hrows ▸ htake
    have hroomy : (@Req.cut .setRegsVar ⟨ids.length.toUInt16, ids, regsSize, bufs⟩).Roomy :=
      ⟨hcounted.shaped (lt_of_room hroom), hroom⟩
    refine refines_unit (sendReq_refines .setRegsVar _
      (fun _ => @Req.cut .setRegsVar ⟨ids.length.toUInt16, ids, regsSize, bufs⟩) (by decide) rfl
      hroomy ?_ fun _ _ _ => ⟨hroomy.shaped, rfl, rfl⟩)
    rw [← ImplCall.toNat_narrow]
    exact on_bind_pure _ _ _

end Remote

end Cut

end Odb
