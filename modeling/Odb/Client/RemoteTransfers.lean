import Odb.Client.RemoteValues

/-!
# Transfers of registers by a client in another process

What the client is told about the registers of a transfer, and what comes of it.

* `DBClient.asked`: the registers whose infos the request reaches; `DBClient.seen`: the sizes that
  the client has then.
* `Transfer.RemoteReadable`, `Transfer.RemoteSettable`: the sizes go together.
* `remoteReadable_iff`, `remoteSettable_iff`: as those of the same process, where the count of 16 bits
  reaches all registers.
* `getRegs_remote`, `setRegs_remote`: what each call does with any sizes.
-/

namespace Odb

open Prog DBClient

namespace DBClient

/-- The registers that are not in the cache. -/
def lacked (c : DBClient) (ids : List VmReg) : List VmReg := ids.filter (· ∉ c.regiIdxMap)

/-- Those whose infos are asked for, as far as the count of the request reaches. -/
def asked (c : DBClient) (ids : List VmReg) : List VmReg :=
  (c.lacked ids).take ((c.lacked ids).length % 65536)

/-- The size that the cache shows once the infos are there: that of the VM for what was asked. The
infos that the count does not reach stay those of a register 0 of no size. -/
def seen (c : DBClient) (T : RegTable) (ids : List VmReg) (id : VmReg) : Option VmSize :=
  (c.shownSize id).or
    (if id ∈ c.asked ids then some (T.size id)
      else if id = 0 ∧ 65536 ≤ (c.lacked ids).length then some 0 else none)

/-- The registers whose values are asked for. -/
def valueless (c : DBClient) (ids : List VmReg) : List VmReg := ids.filter (c.cached · = [])

/-- The rows of the request for their values. -/
def wanted (c : DBClient) (T : RegTable) (ids : List VmReg) : List (VmReg × VmSize) :=
  sentRows (c.valueless ids) ((c.valueless ids).map fun id => (c.seen T ids id).getD 0)

end DBClient

namespace Transfer

variable (t : Transfer) (T : RegTable) (c : DBClient)

/-- The VM does not have one of the registers that it is asked about. Or the client has a size for
all of them; and no register is empty and no declared size is above that of its register, or the VM
does not have one whose value it is asked for. -/
def RemoteReadable : Prop :=
  (∃ id ∈ c.asked t.ids, ¬ T.Has id) ∨
    (∀ id ∈ t.ids, (c.seen T t.ids id).isSome) ∧
      ((∀ p ∈ t.ids.zipIdx, ∀ shown, c.seen T t.ids p.1 = some shown → Within t p shown) ∨
        Throws T (c.wanted T t.ids))

/-- The rows of the request that sets the registers, as far as its count reaches. -/
def sent : SetLog := (t.ids.zip t.bufs).take (t.ids.length % 65536)

/-- The VM does not have one of the registers that it is asked about; or every buffer that it gets is
as long as its register, and if it takes them all the declared sizes are those that the client has,
and if it refuses one it has set none. -/
def RemoteSettable {S : Type} (val : S → VmReg → Bytes)
    (set : VmReg → Bytes → S → Except Bytes Unit × S) (s : S) : Prop :=
  (∃ id ∈ c.asked t.ids, ¬ T.Has id) ∨
    (∀ row ∈ (setAll set t.sent s).handed, (T.size row.1).toNat ≤ row.2.length) ∧
    if (setAll set t.sent s).all then
      ∀ p ∈ t.ids.zipIdx, ∃ shown, c.seen T t.ids p.1 = some shown ∧ t.size p.2 = .ok shown
    else val (setAll set t.sent s).state = val s

end Transfer

namespace DBClient

/-- The cache shows sizes of registers of the VM, and none for what was not told. -/
structure Told (T : RegTable) (c : DBClient) : Prop extends c.Sized where
  sizes : ∀ id size, c.shownSize id = some size → T.Has id ∧ size = T.size id ∨ size = 0

variable {T : RegTable} {L : VmReg → Prop} {R : VmReg → Bytes → Prop} {c : DBClient}
  {ids : List VmReg}

theorem CacheOf.told (hc : CacheOf T L R c) : Told T c where
  toSized := hc.sized
  sizes id size h := by
    have hid : id ∈ c.regiIdxMap := by
      rw [hc.byIdx.mem_iff_shown, h]
      rfl
    rw [hc.shownSize_eq hid] at h
    exact .inl ⟨hc.has hid, (Option.some.inj h).symm⟩

/-! ## What the client sees -/

theorem mem_lacked {id : VmReg} : id ∈ c.lacked ids ↔ id ∈ ids ∧ id ∉ c.regiIdxMap := by
  simp [lacked]

theorem mem_of_asked {id : VmReg} (h : id ∈ c.asked ids) : id ∈ ids :=
  (mem_lacked.mp (List.mem_of_mem_take h)).1

theorem asked_eq (h : ids.length < 65536) : c.asked ids = c.lacked ids := by
  have hlt : (c.lacked ids).length < 65536 := (List.length_filter_le _ _).trans_lt h
  rw [asked, Nat.mod_eq_of_lt hlt, List.take_length]

/-- The size of a register is the VM's, or none. -/
theorem seen_cases (hc : Told T c) {id : VmReg} {size : VmSize}
    (h : c.seen T ids id = some size) :
    (T.Has id ∨ id ∈ c.asked ids) ∧ size = T.size id ∨ size = 0 := by
  cases hshown : c.shownSize id with
  | some shown =>
    rw [seen, hshown] at h
    obtain rfl := Option.some.inj h
    exact (hc.sizes id shown hshown).imp_left fun h => ⟨.inl h.1, h.2⟩
  | none =>
    rw [seen, hshown, Option.none_or] at h
    split at h
    · next hasked => exact .inl ⟨.inr hasked, (Option.some.inj h).symm⟩
    · split at h
      · exact .inr (Option.some.inj h).symm
      · cases h

/-- What the client sees when the VM has all that it was asked about. -/
theorem Told.of_seen (hc : Told T c) (hhas : ∀ id ∈ c.asked ids, T.Has id) {c' : DBClient}
    (hsized : c'.Sized) (hshown : c'.shownSize = c.seen T ids) : Told T c' where
  toSized := hsized
  sizes id size h := by
    rw [hshown] at h
    exact (seen_cases hc h).imp_left fun h => ⟨h.1.elim (fun h => h) (hhas id), h.2⟩

theorem seen_le (hc : Told T c) {id : VmReg} {size : VmSize}
    (h : c.seen T ids id = some size) : size.toNat ≤ (T.size id).toNat := by
  rcases seen_cases hc h with ⟨-, rfl⟩ | rfl
  · exact Nat.le_refl _
  · exact Nat.zero_le _

/-- Where the VM has all registers and the count reaches them, the client has their sizes. -/
theorem seen_eq (hc : CacheOf T L R c) (h : ids.length < 65536) {id : VmReg} (hid : id ∈ ids) :
    c.seen T ids id = some (T.size id) := by
  by_cases hmem : id ∈ c.regiIdxMap
  · rw [seen, hc.shownSize_eq hmem]
    rfl
  · have hasked : id ∈ c.asked ids := by
      rw [asked_eq h]
      exact mem_lacked.mpr ⟨hid, hmem⟩
    have hnone : c.shownSize id = none := by
      rwa [hc.byIdx.mem_iff_shown, Option.not_isSome_iff_eq_none] at hmem
    rw [seen, hnone, if_pos hasked]
    rfl

theorem asked_lacks (hc : CacheOf T L R c) (h : ids.length < 65536) :
    (∃ id ∈ c.asked ids, ¬ T.Has id) ↔ ∃ id ∈ ids, ¬ T.Has id := by
  constructor
  · rintro ⟨id, hid, hnot⟩
    exact ⟨id, mem_of_asked hid, hnot⟩
  · rintro ⟨id, hid, hnot⟩
    refine ⟨id, ?_, hnot⟩
    rw [asked_eq h]
    exact mem_lacked.mpr ⟨hid, fun hmem => hnot (hc.has hmem)⟩

end DBClient

namespace Transfer

section Small

variable {t : Transfer} {T : RegTable} {L : VmReg → Prop} {R : VmReg → Bytes → Prop} {c : DBClient}

/-- The requests for fewer than 65536 registers reach all of them. -/
theorem remoteReadable_iff (hc : CacheOf T L R c) (h : t.ids.length < 65536) :
    t.RemoteReadable T c ↔ t.Readable T := by
  unfold RemoteReadable Readable
  rw [asked_lacks hc h]
  by_cases hlack : ∃ id ∈ t.ids, ¬ T.Has id
  · exact iff_of_true (.inl hlack) (.inl hlack)
  rw [or_iff_right hlack, or_iff_right hlack]
  have hthrows : ¬ Throws T (c.wanted T t.ids) := by
    rintro ⟨-, hreaches⟩
    obtain ⟨row, hrow, hnot⟩ := hreaches.lacks
    have hmem := (List.of_mem_zip (List.mem_of_mem_take hrow)).1
    exact hlack ⟨row.1, (List.mem_filter.mp hmem).1, hnot⟩
  rw [or_iff_left hthrows, and_iff_right]
  · refine forall₂_congr fun p hp => ?_
    rw [seen_eq hc h (List.fst_mem_of_mem_zipIdx hp)]
    simp [Within]
  · intro id hid
    rw [seen_eq hc h hid]
    rfl

theorem remoteSettable_iff (hc : CacheOf T L R c) (h : t.ids.length < 65536) {S : Type}
    {val : S → VmReg → Bytes} {set : VmReg → Bytes → S → Except Bytes Unit × S} {s : S} :
    t.RemoteSettable T c val set s ↔ t.Settable T val set s := by
  have hsent : t.sent = t.ids.zip t.bufs := by
    refine List.take_of_length_le ?_
    rw [Nat.mod_eq_of_lt h, List.length_zip]
    exact Nat.min_le_left ..
  unfold RemoteSettable Settable
  rw [asked_lacks hc h, hsent]
  have hsizes : (∀ p ∈ t.ids.zipIdx, ∃ shown, c.seen T t.ids p.1 = some shown ∧
      t.size p.2 = .ok shown) ↔ ∀ p ∈ t.ids.zipIdx, t.size p.2 = .ok (T.size p.1) := by
    refine forall₂_congr fun p hp => ?_
    rw [seen_eq hc h (List.fst_mem_of_mem_zipIdx hp)]
    simp
  rw [hsizes]

end Small

end Transfer

namespace Transfer

variable {t : Transfer}

theorem Declared.nonempty (ht : t.Declared) (hne : t.ids ≠ []) : t.regsSize ≠ [] := by
  rintro hnil
  rcases ht.sizes with hlen | hzero
  · rw [hnil] at hlen
    exact hne (List.length_eq_zero_iff.mp hlen.symm)
  · simp [hnil] at hzero

/-- The buffers have the sizes that are declared for them. -/
theorem Declared.batch (ht : t.Declared) :
    BatchBufs t.ids.length (declaredSizes t.ids.length t.regsSize) t.bufs := by
  have hrow {i : Nat} (hi : i < t.ids.length) :
      ∃ size buf, t.size i = .ok size ∧ t.bufs[i]? = some buf ∧ buf.length = size.toNat :=
    ht.rows (t.ids[i], i) (List.mem_zipIdx_iff_getElem?.mpr (List.getElem?_eq_getElem hi))
  have hsize : (declaredSizes t.ids.length t.regsSize).length = t.ids.length ∧
      ∀ i < t.ids.length, t.size i = at' (declaredSizes t.ids.length t.regsSize) i := by
    unfold declaredSizes
    split
    · next hone =>
      refine ⟨List.length_replicate, fun i hi => ?_⟩
      have hne : t.regsSize ≠ [] := ht.nonempty fun hnil => by simp [hnil] at hi
      obtain ⟨s, rest, hsizes⟩ := List.exists_cons_of_ne_nil hne
      have hat : at' (List.replicate t.ids.length (t.regsSize.headD 0)) i = .ok s := by
        rw [at', List.getElem?_replicate, if_pos hi, hsizes]
        rfl
      rw [hat, size, regSize]
      by_cases htwo : 1 < t.ids.length
      · have hzero : at' t.regsSize 1 = .ok 0 := by
          rw [at', hone.resolve_left (by omega)]
        rw [if_pos htwo, hzero, ok_bind, if_pos rfl, hsizes]
        rfl
      · obtain rfl : i = 0 := by omega
        rw [if_neg htwo, hsizes]
        rfl
    · next hone =>
      obtain ⟨htwo, hsecond⟩ := not_or.mp hone
      have hlen := ht.sizes.resolve_right hsecond
      refine ⟨hlen, fun i _ => ?_⟩
      have hlt : 1 < t.regsSize.length := by omega
      have hat : at' t.regsSize 1 = .ok t.regsSize[1] := by rw [at', List.getElem?_eq_getElem hlt]
      rw [size, regSize, if_pos (by omega), hat, ok_bind, if_neg]
      intro hzero
      exact hsecond (by rw [List.getElem?_eq_getElem hlt, hzero])
  refine ⟨hsize.1, List.ext_getElem (by simp [ht.count, hsize.1]) fun i hi hi' => ?_⟩
  rw [List.length_map, ht.count] at hi
  rw [List.length_map] at hi'
  obtain ⟨size, buf, hs, hbuf, hlen⟩ := hrow hi
  rw [hsize.2 i hi, at', List.getElem?_eq_getElem hi'] at hs
  obtain ⟨_, rfl⟩ := List.getElem?_eq_some_iff.mp hbuf
  rw [List.getElem_map, List.getElem_map, hlen, Except.ok.inj hs]

end Transfer

namespace DBClient

variable {V : Type} {api : VMApi V} {T : RegTable} {P : V → Prop} {R : VmReg → Bytes → Prop}
  {udp : DBClientUpdate} {w : World (Remote V)} {ids : List VmReg}

/-! ## The infos -/

/-- The values of infos do not matter once they are cleared. -/
theorem map_clear {infos outs : List RegInfos} (h : infos.length ≤ outs.length) :
    (List.zipWith (fun x y => { x with val := y.val }) infos outs).map
        (fun inf : RegInfos => { inf with val := [] }) =
      infos.map fun inf => { inf with val := [] } := by
  induction infos generalizing outs with
  | nil => rfl
  | cons inf infos ih =>
    obtain _ | ⟨out, outs⟩ := outs
    · cases h
    · rw [List.zipWith_cons_cons, List.map_cons, List.map_cons, ih (Nat.le_of_succ_le_succ h)]

/-- The first infos about a register, of those that were asked for and blank ones. -/
theorem firstSize_answered {asked : List VmReg} {infos : List RegInfos}
    (h : List.Forall₂ T.IsInfos asked infos) (n : Nat) (id : VmReg) :
    firstSize (infos.map (fun inf => { inf with val := [] }) ++ List.replicate n Serial.blank) id =
      if id ∈ asked then some (T.size id) else if id = 0 ∧ 0 < n then some 0 else none := by
  induction h with
  | nil =>
    rw [List.map_nil, List.nil_append, if_neg List.not_mem_nil]
    cases n with
    | zero => simp [firstSize]
    | succ n =>
      have hblank : (Serial.blank : RegInfos).idx = 0 := rfl
      by_cases hid : id = 0
      · subst hid
        simp [firstSize, List.replicate_succ, hblank]
        rfl
      · simp [firstSize, hid, Ne.symm hid, hblank]
  | @cons id' inf asked infos hinf _ ih =>
    obtain ⟨rfl, hinfo⟩ := hinf
    rw [List.map_cons, List.cons_append]
    unfold firstSize at ih ⊢
    by_cases hid : inf.idx = id
    · subst hid
      rw [List.find?_cons_of_pos (by simp), if_pos (by simp), RegTable.size_eq hinfo]
      rfl
    · rw [List.find?_cons_of_neg (by simpa using hid), ih]
      simp [Ne.symm hid]

/-- The call for the infos of registers: the first infos about each are those of the VM for what the
count reaches, and else blank. -/
theorem getRegsInfos_remote (hvm : api.HasRegs T P R) (htexts : api.TextsFit T) {t : Remote V}
    (hdb : t.db.RegsOf T P fun _ => True) (hfit : ∀ id ∈ ids, T.Fits id) :
    Outcome
      (fun infos t' => (∀ id ∈ ids.take (ids.length % 65536), T.Has id) ∧
        t'.db.RegsOf T P (fun _ => True) ∧ ∀ id,
          firstSize (infos.map fun inf => { inf with val := [] }) id =
            if id ∈ ids.take (ids.length % 65536) then some (T.size id)
              else if id = 0 ∧ 65536 ≤ ids.length then some 0 else none)
      (fun e t' => (∃ id ∈ ids.take (ids.length % 65536), ¬ T.Has id) ∧ Caught e ∧
        t'.db.RegsOf T P fun _ => True)
      ((Remote.impl api udp (.getRegsInfos ids (.replicate ids.length Serial.blank))).on t) := by
  have hlen : (List.replicate ids.length (Serial.blank : RegInfos)).length = ids.length :=
    List.length_replicate
  have htake : ((List.replicate ids.length (Serial.blank : RegInfos)).take
      (ids.length % 65536)).length = (ids.take (ids.length % 65536)).length := by
    rw [List.length_take, List.length_take, hlen]
  have hblanks : ∀ x ∈ List.replicate ids.length (Serial.blank : RegInfos),
      LawfulSerial.Fits x.name := by
    intro x hx
    rw [List.eq_of_mem_replicate hx]
    exact Nat.zero_le _
  obtain ⟨hok, herr, -⟩ := @Remote.refines_getRegsInfos_cut _ api udp t.db _ _ hlen hblanks t.is
  have hyields := VMSide.getRegsInfos_yields hvm htake (fun _ _ => trivial) t.db hdb
  have hterse := terse_getRegsInfos htexts (ids.take (ids.length % 65536))
    ((List.replicate ids.length (Serial.blank : RegInfos)).take (ids.length % 65536)) t.db trivial
  show Outcome _ _ ((DataClient.getRegsInfos (Remote.exchange api udp) ids
    (.replicate ids.length Serial.blank)).on ⟨t.db, t.is⟩)
  rcases hrun : (VMSide.getRegsInfos api (ids.take (ids.length % 65536))
    ((List.replicate ids.length Serial.blank).take (ids.length % 65536))).on t.db with
      ⟨e | infos, db'⟩ <;> rw [hrun] at hyields hterse
  · obtain ⟨hdb', hq⟩ := hyields
    obtain ⟨hlack, hcaught⟩ := hq fun id hid => hfit id (List.mem_of_mem_take hid)
    obtain ⟨msg, rfl⟩ : ∃ msg, e = .vmError msg := by
      cases e with
      | vmError msg => exact ⟨msg, rfl⟩
      | stdException | assertFail | undefined => exact hcaught.elim
    have hwhat : (what msg).length ≤ maxBytes :=
      (List.takeWhile_sublist _).length_le.trans (hterse msg rfl)
    rw [herr msg db' hrun hwhat]
    exact ⟨by simpa using hlack, trivial, hdb'⟩
  · obtain ⟨hdb', hinfos, hhas⟩ := hyields
    obtain ⟨is', hcall⟩ := hok infos db' hrun fun x hx => by
      obtain ⟨id, -, -, hinfo⟩ := forall₂_mem_right hinfos hx
      exact htexts.names _ _ hinfo
    rw [hcall]
    refine ⟨hhas fun id hid => hfit id (List.mem_of_mem_take hid), hdb', fun id => ?_⟩
    have hblank : (List.replicate (ids.length - ids.length % 65536) (Serial.blank : RegInfos)).map
        (fun inf => { inf with val := [] }) =
          List.replicate (ids.length - ids.length % 65536) Serial.blank := List.map_replicate
    have hpos : 0 < ids.length - ids.length % 65536 ↔ 65536 ≤ ids.length := by omega
    rw [List.map_append, map_clear (hinfos.length_eq.symm.trans htake.symm).le, List.drop_replicate,
      hblank, firstSize_answered hinfos]
    simp only [hpos]

/-- `_fetch_reg_infos_by_id`: the client has the sizes that it sees, or it was told that the VM does
not have one of the registers. -/
theorem fetchRegInfosById_remote (hvm : api.HasRegs T P R) (htexts : api.TextsFit T)
    (hw : w.client.Sized) (hdb : w.impl.db.RegsOf T P fun _ => True) (hfit : ∀ id ∈ ids, T.Fits id) :
    Outcome
      (fun _ w' => (∀ id ∈ w.client.asked ids, T.Has id) ∧
        w'.impl.db.RegsOf T P (fun _ => True) ∧ w'.client.Sized ∧
        w'.client.shownSize = w.client.seen T ids ∧ w'.client.cached = w.client.cached ∧
        w'.client.state = w.client.state)
      (fun e w' => (∃ id ∈ w.client.asked ids, ¬ T.Has id) ∧ Caught e ∧
        w'.impl.db.RegsOf T P (fun _ => True) ∧ w'.client = w.client)
      ((fetchRegInfosById (Remote.impl api udp) ids).on w) := by
  unfold fetchRegInfosById
  rw [on_bind_ok (on_get w)]
  show Outcome _ _ ((if w.client.lacked ids = [] then return
    else call (Remote.impl api udp) (.getRegsInfos (w.client.lacked ids) (.replicate
      (w.client.lacked ids).length Serial.blank)) >>= fun infos => modifyClient (·.addRegs
        (infos.map fun inf => { inf with val := [] })) : ClientM _ _).on w)
  by_cases hnone : w.client.lacked ids = []
  · rw [if_pos hnone]
    have hasked : w.client.asked ids = [] := by rw [asked, hnone]; rfl
    refine ⟨by simp [hasked], hdb, hw, funext fun id => ?_, rfl, rfl⟩
    simp [seen, hasked, hnone]
  rw [if_neg hnone]
  have hlacked : ∀ id ∈ w.client.lacked ids, T.Fits id := fun id hid => hfit id (mem_lacked.mp hid).1
  have hcall := @getRegsInfos_remote _ api _ _ _ udp _ hvm htexts _ hdb hlacked
  rcases hrun : (Remote.impl api udp (.getRegsInfos (w.client.lacked ids) (.replicate
    (w.client.lacked ids).length Serial.blank))).on w.impl with ⟨e | infos, t⟩ <;> rw [hrun] at hcall
  · rw [on_bind_error (call_on hrun)]
    exact ⟨hcall.1, hcall.2.1, hcall.2.2, rfl⟩
  · obtain ⟨hhas, hdb', hfirst⟩ := hcall
    have hvals : ∀ inf ∈ infos.map (fun inf : RegInfos => { inf with val := [] }), inf.val = [] := by
      simp
    rw [on_bind_ok (call_on hrun)]
    refine ⟨hhas, hdb', hw.addRegs hvals, funext fun id => ?_,
      funext (hw.byId.cached_addRegs hvals), addRegs_state _ _⟩
    show (w.client.addRegs _).shownSize id = _
    rw [hw.byId.shownSize_addRegs, hfirst]
    rfl

/-! ## The values -/

/-- A register that the cache does not show is an assertion. -/
theorem missingVals_hidden {σ : Type} {w : World σ} (h : w.client.ById)
    (hids : ¬ ∀ id ∈ ids, (w.client.shownSize id).isSome) :
    (missingVals ids : ClientM σ _).on w = (.error .assertFail, w) := by
  have hfind := Spec.mapM (I := (· = w)) (f := @findReg σ)
    (E := fun e w' => e = .assertFail ∧ w' = w)
    (R := fun id _ => (w.client.shownSize id).isSome) ids (fun id _ => ?_) w rfl
  · unfold missingVals
    rcases hrun : (ids.mapM (@findReg σ)).on w with ⟨e | regs, w'⟩ <;> rw [hrun] at hfind
    · obtain ⟨rfl, rfl⟩ := hfind
      exact on_bind_error hrun _
    · refine absurd (fun id hid => ?_) hids
      obtain ⟨p, -, hsome⟩ := forall₂_mem_left hfind.2 hid
      exact hsome
  · intro s hs
    subst s
    by_cases hid : id ∈ w.client.regiIdxMap
    · obtain ⟨pos, inf, hrun, -⟩ := findReg_on h hid
      rw [hrun]
      exact ⟨rfl, (h.mem_iff_shown id).mp hid⟩
    · rw [findReg_missing hid]
      exact ⟨rfl, rfl⟩

theorem declaredSizes_self {n : Nat} {sizes : List VmSize} (hlen : sizes.length = n)
    (h : ∀ size ∈ sizes, size ≠ 0) : declaredSizes n sizes = sizes := by
  unfold declaredSizes
  split
  · next hone =>
    obtain _ | ⟨s, _ | ⟨s', sizes⟩⟩ := sizes
    · rw [← hlen]
      rfl
    · rw [← hlen]
      rfl
    · rcases hone with hlt | hzero
      · rw [← hlen, List.length_cons, List.length_cons] at hlt
        omega
      · exact absurd (Option.some.inj hzero) (h s' (by simp))
  · rfl

/-- `_fetch_reg_vals_by_id` from the sizes that the client has. -/
theorem loadVals_remote (hvm : api.HasRegs T P R) (htexts : api.TextsFit T) (hw : w.client.Sized)
    (hdb : w.impl.db.RegsOf T P fun _ => True) {miss : List VmReg} (hne : miss ≠ [])
    (hmiss : ∀ id ∈ miss, (w.client.shownSize id).isSome) (hfit : ∀ id ∈ miss, T.Fits id)
    (hroom : ((miss.map fun id => (w.client.shownSize id).getD 0).map UInt64.toNat).sum ≤ maxBytes) :
    Outcome
      (fun _ w' => w'.impl.db.RegsOf T P (fun _ => True) ∧
        ¬ Throws T (sentRows miss (miss.map fun id => (w.client.shownSize id).getD 0)) ∧
        w'.client.Sized ∧ w'.client.shownSize = w.client.shownSize ∧
        w'.client.state = w.client.state ∧
        ∀ id, (∀ size, w.client.shownSize id = some size → size ≠ 0) →
          w.client.cached id ≠ [] ∨ id ∈ miss → w'.client.cached id ≠ [])
      (fun e w' => (Caught e → w'.impl.db.RegsOf T P fun _ => True) ∧ w'.client = w.client ∧
        (Caught e ↔
          Throws T (sentRows miss (miss.map fun id => (w.client.shownSize id).getD 0))) ∧
        ¬ ∀ id ∈ miss, T.Has id ∧ T.size id ≠ 0 ∧ w.client.shownSize id = some (T.size id))
      ((loadVals (Remote.impl api udp) (miss.map fun id =>
        (id, (w.client.shownSize id).getD 0))).on w) := by
  unfold loadVals
  simp only [List.map_map, Function.comp_def, List.map_id']
  obtain ⟨buff, hbuff, hbufs⟩ := missBufs_eq _ hroom
  simp only [List.map_map, Function.comp_def] at hbufs
  rw [hbuff, lift_ok, pure_bind, hbufs, lift_ok, pure_bind]
  have hlen : (miss.map fun id => (w.client.shownSize id).getD 0).length = miss.length :=
    List.length_map _
  have hblank : (miss.map fun id => blanks UInt8 ((w.client.shownSize id).getD 0).toNat).map
      List.length = (miss.map fun id => (w.client.shownSize id).getD 0).map UInt64.toNat := by
    simp [length_blanks]
  have hvals := @Remote.getRegs_outcome _ api _ _ _ udp _ hvm htexts _ _ _ hne hlen hblank hfit hdb
    w.impl.is
  have hsize {id : VmReg} (hid : id ∈ miss) :
      w.client.shownSize id = some ((w.client.shownSize id).getD 0) := by
    obtain ⟨size, hsize⟩ := Option.isSome_iff_exists.mp (hmiss id hid)
    rw [hsize]
    rfl
  rcases hrun : (Remote.impl api udp (.getRegs miss (miss.map fun id =>
    blanks UInt8 ((w.client.shownSize id).getD 0).toNat) (miss.map fun id =>
      (w.client.shownSize id).getD 0))).on w.impl with ⟨e | vals, t⟩ <;>
    rw [show (DataClient.getRegs (Remote.exchange api udp) _ _ _).on _ = _ from hrun] at hvals
  · obtain ⟨hdb', hcaught, hbad⟩ := hvals
    rw [on_bind_error (call_on hrun)]
    refine ⟨hdb', rfl, hcaught, fun hall => hbad ⟨declaredSizes_self hlen fun size hsize => ?_, hroom, ?_⟩⟩
    · obtain ⟨id, hid, rfl⟩ := List.mem_map.mp hsize
      obtain ⟨-, hne, hshown⟩ := hall id hid
      rwa [hshown]
    · rw [← List.map_prod_left_eq_zip, List.forall_mem_map]
      intro id hid
      obtain ⟨hhas, -, hshown⟩ := hall id hid
      rw [hshown]
      exact ⟨hhas, UInt64.le_refl _⟩
  · obtain ⟨hdb', hlens, hnot⟩ := hvals
    have hrows : List.Forall₂ (fun id val => val.length = ((w.client.shownSize id).getD 0).toNat)
        miss vals := by
      rw [List.map_map, ← List.forall₂_eq_eq_eq, List.forall₂_map_left_iff,
        List.forall₂_map_right_iff] at hlens
      exact hlens.flip
    obtain ⟨w', hstore, himpl, hw', hshown, hstate, hcached⟩ :=
      @storeVals_shown _ { w with impl := t } hw (miss.zip vals) fun p hp =>
        ⟨_, hsize (List.of_mem_zip hp).1, List.forall₂_zip hrows hp⟩
    rw [List.map_fst_zip hrows.length_eq.le] at hcached
    rw [on_bind_ok (call_on hrun), hstore]
    exact ⟨himpl ▸ hdb', hnot, hw', hshown, hstate, hcached⟩

/-- After a call, what both sides have is still told by the VM. -/
structure Remains (T : RegTable) (P : V → Prop) (w w' : World (Remote V)) : Prop where
  server : w'.impl.db.RegsOf T P fun _ => True
  cache : Told T w'.client
  state : w'.client.state = w.client.state

theorem sum_seen_le (hc : Told T w.client) (all : List VmReg) (hheld : Holds T ids) :
    (((w.client.valueless ids).map fun id => (w.client.seen T all id).getD 0).map UInt64.toNat).sum ≤
      maxBytes := by
  refine le_trans ?_ (hheld.filter fun id => w.client.cached id = [])
  rw [List.map_map]
  refine List.sum_le_sum fun id _ => ?_
  show ((w.client.seen T all id).getD 0).toNat ≤ (T.size id).toNat
  rcases hseen : w.client.seen T all id with _ | size
  · exact Nat.zero_le _
  · exact seen_le hc hseen

/-- `_fetch_reg_vals_by_id`: the client has values of the sizes that it sees. -/
theorem fetchRegValsById_remote (hvm : api.HasRegs T P R) (htexts : api.TextsFit T)
    (hc : Told T w.client) (hdb : w.impl.db.RegsOf T P fun _ => True) (hheld : Holds T ids) :
    Outcome
      (fun _ w' => Remains T P w w' ∧ (∀ id ∈ w.client.asked ids, T.Has id) ∧
        (∀ id ∈ ids, (w.client.seen T ids id).isSome) ∧ ¬ Throws T (w.client.wanted T ids) ∧
        w'.client.shownSize = w.client.seen T ids ∧
        ∀ id ∈ ids, ∀ shown, w.client.seen T ids id = some shown → shown ≠ 0 →
          w'.client.cached id ≠ [])
      (fun e w' => (Caught e → Remains T P w w') ∧
        (Caught e ↔ (∃ id ∈ w.client.asked ids, ¬ T.Has id) ∨
          (∀ id ∈ ids, (w.client.seen T ids id).isSome) ∧ Throws T (w.client.wanted T ids)) ∧
        (¬ Caught e → ¬ ∀ id ∈ ids, ∃ shown, w.client.seen T ids id = some shown ∧ shown ≠ 0))
      ((fetchRegValsById (Remote.impl api udp) ids).on w) := by
  have hfit : ∀ id ∈ ids, T.Fits id := fun id hid => fits_of_sum hheld hid
  have hinfos := @fetchRegInfosById_remote _ api _ _ _ udp _ _ hvm htexts hc.toSized hdb hfit
  rw [fetchRegValsById_eq]
  rcases hrun : (fetchRegInfosById (Remote.impl api udp) ids).on w with ⟨e | _, w₁⟩ <;>
    rw [hrun] at hinfos
  · obtain ⟨hlack, hcaught, hdb', hsame⟩ := hinfos
    rw [on_bind_error hrun]
    exact ⟨fun _ => ⟨hdb', hsame ▸ hc, congrArg _ hsame⟩, iff_of_true hcaught (.inl hlack),
      fun h => absurd hcaught h⟩
  obtain ⟨hhas, hdb₁, hw₁, hshown, hcached, hstate⟩ := hinfos
  have htold := hc.of_seen hhas hw₁ hshown
  have hnolack : ¬ ∃ id ∈ w.client.asked ids, ¬ T.Has id := by simpa using hhas
  rw [on_bind_ok hrun, or_iff_right hnolack]
  by_cases hall : ∀ id ∈ ids, (w.client.seen T ids id).isSome
  · have hmem (id : VmReg) : id ∈ w.client.valueless ids ↔ id ∈ ids ∧ w₁.client.cached id = [] := by
      simp [valueless, hcached]
    have hmap : ∀ id ∈ ids, id ∈ w₁.client.regiIdxMap := fun id hid => by
      rw [hw₁.byId.mem_iff_shown, hshown]
      exact hall id hid
    rw [on_bind_ok (missingVals_shown hw₁.byId hmap), hcached]
    show Outcome _ _ ((if (w.client.valueless ids).map _ = [] then return
      else loadVals _ ((w.client.valueless ids).map _) : ClientM _ _).on w₁)
    by_cases hmiss : w.client.valueless ids = []
    · have hwanted : ¬ Throws T (w.client.wanted T ids) := by
        rw [wanted, hmiss]
        exact And.right
      rw [hmiss]
      refine ⟨⟨hdb₁, htold, hstate⟩, hhas, hall, hwanted, hshown, fun id hid _ _ _ hnil => ?_⟩
      simpa [hmiss] using (hmem id).mpr ⟨hid, hnil⟩
    rw [if_neg (by simpa using hmiss)]
    have hroom := sum_seen_le hc ids hheld
    have hload := @loadVals_remote _ api _ _ _ udp _ hvm htexts hw₁ hdb₁ _ hmiss (fun id hid => by
      rw [hshown]
      exact hall id ((hmem id).mp hid).1) (fun id hid => hfit id ((hmem id).mp hid).1) (by
        rw [hshown]
        exact hroom)
    simp only [hshown] at hload ⊢
    rcases hrun' : (loadVals (Remote.impl api udp) ((w.client.valueless ids).map fun id =>
      (id, (w.client.seen T ids id).getD 0))).on w₁ with ⟨e | u, w₂⟩ <;> rw [hrun'] at hload
    · obtain ⟨hdb₂, hsame, hcaught, hbad⟩ := hload
      refine ⟨fun h => ⟨hdb₂ h, hsame ▸ htold, hsame ▸ hstate⟩,
        hcaught.trans (and_iff_right hall).symm, fun _ hseen => hbad fun id hid => ?_⟩
      obtain ⟨shown, hsome, hne⟩ := hseen id ((hmem id).mp hid).1
      rcases seen_cases hc hsome with ⟨hhas' | hasked, rfl⟩ | hzero
      · exact ⟨hhas', hne, hsome⟩
      · exact ⟨hhas id hasked, hne, hsome⟩
      · exact absurd hzero hne
    · obtain ⟨hdb₂, hnot, hw₂, hshown₂, hstate₂, hcached₂⟩ := hload
      refine ⟨⟨hdb₂, hc.of_seen hhas hw₂ hshown₂, hstate₂.trans hstate⟩, hhas, hall, hnot, hshown₂,
        fun id hid shown hsome hne => hcached₂ id ?_ ?_⟩
      · rintro size hsize rfl
        exact hne (Option.some.inj (hsome.symm.trans hsize))
      · by_cases hnil : w₁.client.cached id = []
        · exact .inr ((hmem id).mpr ⟨hid, hnil⟩)
        · exact .inl hnil
  · rw [on_bind_error (missingVals_hidden hw₁.byId (hshown ▸ hall))]
    refine ⟨False.elim, iff_of_false id fun h => hall h.1, fun _ hseen => hall fun id hid => ?_⟩
    obtain ⟨shown, hsome, -⟩ := hseen id hid
    rw [hsome]
    rfl

/-! ## The calls -/

section Calls

variable {t : Transfer}

/-- `get_regs` with any declared sizes: it returns, or throws a `VMApi::Error`, exactly if they are
readable. -/
theorem getRegs_remote (hvm : api.HasRegs T P R) (htexts : api.TextsFit T)
    (hstopped : w.client.state = .vmStopped) (hc : Told T w.client)
    (hdb : w.impl.db.RegsOf T P fun _ => True) (ht : t.Declared) (hheld : Holds T t.ids) :
    Outcome
      (fun rows w' => t.RemoteReadable T w.client ∧ rows.map List.length = t.bufs.map List.length ∧
        Remains T P w w')
      (fun e w' => (t.RemoteReadable T w.client ↔ Caught e) ∧ (Caught e → Remains T P w w'))
      ((getRegs (Remote.impl api udp) t.ids t.bufs t.regsSize).on w) := by
  have hvals := @fetchRegValsById_remote _ api _ _ _ udp _ _ hvm htexts hc hdb hheld
  unfold getRegs Transfer.RemoteReadable
  rw [on_bind_ok (assertState_on hstopped)]
  rcases hrun : (fetchRegValsById (Remote.impl api udp) t.ids).on w with ⟨e | _, w₁⟩ <;>
    rw [hrun] at hvals
  · obtain ⟨hdb₁, hcaught, hnonzero⟩ := hvals
    rw [on_bind_error hrun]
    refine ⟨⟨fun h => ?_, fun h => (hcaught.mp h).imp_right fun h => ⟨h.1, .inr h.2⟩⟩, hdb₁⟩
    rcases h with hlack | ⟨hall, hwithin | hthrows⟩
    · exact hcaught.mpr (.inl hlack)
    · by_contra hnot
      refine hnonzero hnot fun id hid => ?_
      obtain ⟨i, hi⟩ := List.mem_iff_getElem?.mp hid
      obtain ⟨shown, hshown⟩ := Option.isSome_iff_exists.mp (hall id hid)
      exact ⟨shown, hshown, (hwithin (id, i) (List.mem_zipIdx_iff_getElem?.mpr hi) shown hshown).1⟩
    · exact hcaught.mpr (.inr ⟨hall, hthrows⟩)
  obtain ⟨hremains, hhas, hall, hthrows, hshown, hcached⟩ := hvals
  have hnolack : ¬ ∃ id ∈ w.client.asked t.ids, ¬ T.Has id := by simpa using hhas
  rw [on_bind_ok hrun, or_iff_right hnolack, and_iff_right hall, or_iff_left hthrows]
  have hrows := copyRows_shown hremains.cache.toSized ht fun id hid => by
    obtain ⟨shown, hsome⟩ := Option.isSome_iff_exists.mp (hall id hid)
    exact ⟨shown, by rw [hshown, hsome], hcached id hid shown hsome⟩
  rw [hshown] at hrows
  show Outcome _ _ ((t.ids.zipIdx.mapM (copyRow t.bufs t.regsSize t.ids.length) >>= fun rows =>
    pure (rows ++ t.bufs.drop t.ids.length)).on w₁)
  rcases hloop : (t.ids.zipIdx.mapM (@copyRow (Remote V) t.bufs t.regsSize t.ids.length)).on w₁ with
    ⟨e | rows, w₂⟩ <;> rw [hloop] at hrows
  · obtain ⟨rfl, hnot, hbad⟩ := hrows
    rw [on_bind_error hloop]
    exact ⟨iff_of_false hbad hnot, fun h => absurd h hnot⟩
  · obtain ⟨rfl, hlens, hwithin⟩ := hrows
    rw [on_bind_ok hloop, on_pure, ← ht.count, List.drop_length, List.append_nil]
    exact ⟨hwithin, hlens, hremains⟩

/-- What the server does with the rows that `set_regs` sends. -/
theorem sent_remote {S : Type} {view : V → S} {val : S → VmReg → Bytes}
    {set : VmReg → Bytes → S → Except Bytes Unit × S} (hvm : api.RegFile T view val set)
    (htexts : api.logged.TextsFit T) (ht : t.Declared)
    (hbufs : (t.bufs.map List.length).sum ≤ maxBytes) (i : Remote (V × SetLog)) :
    ∃ r vm' is', (Remote.impl api.logged udp (.setRegs t.ids t.bufs t.regsSize)).on i =
        (r, ⟨{ i.db with vm := (vm', i.db.vm.2 ++ (setAll set t.sent (view i.db.vm.1)).handed) },
          is'⟩) ∧
      view vm' = (setAll set t.sent (view i.db.vm.1)).state ∧
      if (setAll set t.sent (view i.db.vm.1)).all then r = .ok () else
        ∃ msg, r = .error (.vmError msg) := by
  obtain ⟨hok, herr, -⟩ := @Remote.refines_setRegs_cut _ api.logged udp i.db t.ids t.bufs t.regsSize
    ht.nonempty ht.batch hbufs i.is
  have hterse := terse_setRegs htexts (t.ids.take (t.ids.length % 65536))
    (t.bufs.take (t.ids.length % 65536)) i.db trivial
  obtain ⟨r, vm', hset, hview, hall⟩ := setRows_logged hvm t.sent i.db
  have hdirect : VMSide.setRegs api.logged (t.ids.take (t.ids.length % 65536))
      (t.bufs.take (t.ids.length % 65536)) =
        t.sent.forM fun row => Debugger.setReg api.logged row.1 row.2 := by
    rw [ImplCall.setRegs_each (by rw [List.length_take, List.length_take, ht.count]),
      Transfer.sent, List.zip, List.take_zipWith]
  rw [hdirect] at hok herr hterse
  rw [hset] at hterse
  split at hall
  · next hall' =>
    subst hall
    obtain ⟨is', hcall⟩ := hok () _ hset trivial
    exact ⟨.ok (), vm', is', hcall, hview, by rw [if_pos hall']⟩
  · next hall' =>
    obtain ⟨msg, rfl⟩ := hall
    have hwhat : (what msg).length ≤ maxBytes :=
      (List.takeWhile_sublist _).length_le.trans (hterse msg rfl)
    exact ⟨_, vm', _, herr msg _ hset hwhat, hview, by rw [if_neg hall']; exact ⟨_, rfl⟩⟩

/-- `set_regs` with any declared sizes. -/
theorem setRegs_remote {S : Type} {view : V → S} {val : S → VmReg → Bytes}
    {set : VmReg → Bytes → S → Except Bytes Unit × S} {w : World (Remote (V × SetLog))}
    (hvm : api.RegFile T view val set) (htexts : api.logged.TextsFit T)
    (hstopped : w.client.state = .vmStopped) (hc : Told T w.client)
    (hdb : w.impl.db.RegsOf T (fun _ => True) fun _ => True) (ht : t.Declared) (hheld : Holds T t.ids)
    (hbufs : (t.bufs.map List.length).sum ≤ maxBytes) {r : Except Fault Unit}
    {w' : World (Remote (V × SetLog))}
    (h : (setRegs (Remote.impl api.logged udp) t.ids t.bufs t.regsSize).on w = (r, w')) :
    (Respects T view val w.impl.db r w'.impl.db ↔
      t.RemoteSettable T w.client val set (view w.impl.db.vm.1)) ∧
    ((∀ e, r = .error e → Caught e) → Remains T (fun _ => True) w w') := by
  have hfit : ∀ id ∈ t.ids, T.Fits id := fun id hid => fits_of_sum hheld hid
  have hinfos := @fetchRegInfosById_remote _ api.logged _ _ _ udp _ _
    (hvm.logged (view w.impl.db.vm.1) w.impl.db.vm.2) htexts hc.toSized (hdb.with_vm ⟨rfl, rfl⟩) hfit
  unfold setRegs at h
  unfold Transfer.RemoteSettable
  rw [on_bind_ok (assertState_on hstopped)] at h
  rcases hrun : (fetchRegInfosById (Remote.impl api.logged udp) t.ids).on w with ⟨e | _, w₁⟩ <;>
    rw [hrun] at hinfos
  · obtain ⟨hlack, hcaught, hdb₁, hsame⟩ := hinfos
    obtain ⟨hview, hlog⟩ := hdb₁.vm
    rw [on_bind_error hrun] at h
    obtain ⟨rfl, rfl⟩ := Prod.mk.inj h
    rw [respects_same hview hlog]
    exact ⟨iff_of_true (fun e' he' => Except.error.inj he' ▸ hcaught) (.inl hlack),
      fun _ => ⟨hdb₁.with_vm trivial, hsame ▸ hc, congrArg _ hsame⟩⟩
  obtain ⟨hhas, hdb₁, hw₁, hshown, -, hstate⟩ := hinfos
  obtain ⟨hview, hlog⟩ := hdb₁.vm
  have hnolack : ¬ ∃ id ∈ w.client.asked t.ids, ¬ T.Has id := by simpa using hhas
  rw [on_bind_ok hrun] at h
  rw [or_iff_right hnolack]
  obtain ⟨r₁, vm', is', hcall, hvm', hall⟩ :=
    @sent_remote _ _ T udp t _ view val set hvm htexts ht hbufs w₁.impl
  rw [hview, hlog] at hcall
  rw [hview] at hvm' hall
  split at hall
  · next hall' =>
    rw [if_pos hall']
    subst hall
    rw [on_bind_ok (call_on hcall)] at h
    have hmax : ∀ id ∈ t.ids, ∀ shown, w₁.client.shownSize id = some shown →
        shown.toNat ≤ maxBytes := by
      intro id hid shown hsome
      rw [hshown] at hsome
      exact (seen_le hc hsome).trans (List.single_le_sum (by simp) _
        (List.mem_map_of_mem hid) |>.trans hheld)
    have hcache (i : Remote (V × SetLog)) :=
      @cacheSets_shown _ ⟨w₁.client, i⟩ t hw₁ ht t.ids.zipIdx (fun _ hp => hp) hmax
    have hcache := hcache ⟨{ w₁.impl.db with vm := (vm', w.impl.db.vm.2 ++
      (setAll set t.sent (view w.impl.db.vm.1)).handed) }, is'⟩
    rw [show (t.ids.zipIdx.forM (cacheSet t.ids.length t.bufs t.regsSize)).on ⟨w₁.client, _⟩ =
      (r, w') from h] at hcache
    simp only [hshown] at hcache
    rcases r with e | u
    · obtain ⟨hnot, hbad⟩ := hcache
      refine ⟨iff_of_false (fun h => ?_) fun h => hbad h.2, fun h => absurd (h e rfl) hnot⟩
      rcases e with _ | _ | _ | _
      · exact hnot trivial
      all_goals exact h.2
    · obtain ⟨himpl, hsized, hshown', hstate', hown⟩ := hcache
      rw [respects_rows (congrArg (fun i => i.db.vm.2) himpl), and_iff_left trivial,
        and_iff_left hown]
      refine ⟨Iff.rfl, fun _ => ⟨?_, hc.of_seen hhas hsized hshown', hstate'.trans hstate⟩⟩
      rw [himpl]
      exact hdb₁.with_vm trivial
  · next hall' =>
    rw [if_neg hall']
    obtain ⟨msg, rfl⟩ := hall
    rw [on_bind_error (call_on hcall)] at h
    obtain ⟨rfl, rfl⟩ := Prod.mk.inj h
    rw [respects_rows rfl, ← hvm']
    exact ⟨Iff.rfl, fun _ => ⟨hdb₁.with_vm trivial, hc.of_seen hhas hw₁ hshown, hstate⟩⟩

end Calls

end DBClient

end Odb
