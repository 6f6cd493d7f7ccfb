import Odb.Client.RegNames

/-!
# Runs of calls about registers

A client connects to a stopped program and asks about registers: by id or by name, for infos or
values, in any order, calls that throw included.

* `RegCall.Fits`: the calls that the caches and their sizes allow, the state before them given.
* `RegRun.all_answered`: in a run of such calls each is answered as by the VM, and throws exactly if the
  VM rejects what is not cached.
* `RegRun.findRegsIds_dies`: a name that is not the register's own is not such a call.
-/

namespace Odb

open Prog

namespace DBClient

variable {V α : Type} (api : VMApi V) (T : RegTable)

/-- The member functions of `DBClient` about registers, with their arguments. -/
inductive RegCall : Type → Type where
  | findRegsIds (regNames : List CStr) (outIds : List VmReg) : RegCall (List VmReg)
  | getRegsInfos (ids : List VmReg) (outInfos : List RegInfos) : RegCall (List RegInfos)
  | getRegs (ids : List VmReg) (outBufs : List Bytes) (regsSize : List VmSize) :
    RegCall (List Bytes)
  | setRegs (ids : List VmReg) (inBufs : List Bytes) (regsSize : List VmSize) : RegCall Unit

namespace RegCall

def exec : {α : Type} → RegCall α → ClientM (Debugger V) α
  | _, findRegsIds regNames outIds => DBClient.findRegsIds (VMSide.impl api) regNames outIds
  | _, getRegsInfos ids outInfos => DBClient.getRegsInfos (VMSide.impl api) ids outInfos
  | _, getRegs ids outBufs regsSize => DBClient.getRegs (VMSide.impl api) ids outBufs regsSize
  | _, setRegs ids inBufs regsSize => DBClient.setRegs (VMSide.impl api) ids inBufs regsSize

/-- The arrays of the caller: as long as announced, with the sizes of the registers. -/
def Args : {α : Type} → RegCall α → Prop
  | _, findRegsIds regNames outIds => regNames.length ≤ outIds.length
  | _, getRegsInfos ids outInfos => ids.length ≤ outInfos.length
  | _, getRegs ids bufs regsSize | _, setRegs ids bufs regsSize => SizedArgs T ids bufs regsSize

/-- The call is one that the caches allow:

* what is cached under a name is what the VM finds, and a name that is not cached is the own one of
  what the VM finds; unless the VM rejects a name first;
* registers that come into a cache fit in a vector;
* registers whose values are asked for are not empty, and the new values fit in a vector. -/
def Fits (w : World (Debugger V)) : {α : Type} → RegCall α → Prop
  | _, findRegsIds regNames _ =>
    (∀ name ∈ regNames, name.1 ∉ w.client.regiNameMap → ∀ id, T.find name.1 = some id →
      T.Fits id) ∧ (RefusesName T w regNames ∨ ∀ name ∈ regNames, AnswersName T w name.1)
  | _, getRegsInfos ids _ => ∀ id ∈ ids, id ∉ w.client.regiIdxMap → T.Fits id
  | _, getRegs ids _ _ => ValuesFit T w.client ids
  | _, setRegs ids _ _ => ∀ id ∈ ids, T.Fits id

/-- The VM rejects an id or a name that is asked for and not in the cache of the client. -/
def Rejected (w : World (Debugger V)) : {α : Type} → RegCall α → Prop
  | _, findRegsIds regNames _ =>
    ∃ name ∈ regNames, name.1 ∉ w.client.regiNameMap ∧ ¬ T.Finds name.1
  | _, getRegsInfos ids _ | _, getRegs ids _ _ | _, setRegs ids _ _ =>
    ∃ id ∈ ids, id ∉ w.client.regiIdxMap ∧ ¬ T.Has id

/-- What the call returns are the answers of the VM, position by position. -/
def Returns : {α : Type} → RegCall α → α → Prop
  | _, findRegsIds regNames outIds, ids => ∃ items, ids = items ++ outIds.drop regNames.length ∧
    List.Forall₂ (fun name id => T.find name.1 = some id) regNames items
  | _, getRegsInfos ids outInfos, infos => ∃ items, infos = items ++ outInfos.drop ids.length ∧
    List.Forall₂ T.IsInfos ids items
  | _, getRegs ids outBufs _, bufs => ∃ rows, bufs = rows ++ outBufs.drop ids.length ∧
    List.Forall₂ (fun p row => ∃ val buf, outBufs[p.2]? = some buf ∧
      val.length = (T.size p.1).toNat ∧ row = val ++ buf.drop val.length) ids.zipIdx rows
  | _, setRegs _ _ _, _ => True

/-- The VM throws `e` when one of the registers is set. -/
def SetRefused (e : Fault) : {α : Type} → RegCall α → Prop
  | _, setRegs ids inBufs _ => api.Refuses (rowsOf ids inBufs) e
  | _, findRegsIds _ _ | _, getRegsInfos _ _ | _, getRegs _ _ _ => False

/-- How a call ends that is answered by the VM. -/
def Answered (w : World (Debugger V)) {α : Type} (k : RegCall α) : Except Fault α → Prop
  | .ok a => ¬ k.Rejected T w ∧ k.Returns T a
  | .error e => Caught e ∧ (k.Rejected T w ∨ k.SetRefused api e)

end RegCall

/-- The client has connected to a debugger in a run, and found the program stopped. -/
def Connected (w : World (Debugger V)) : Prop :=
  ∃ db₀ es db udp, Debugger.Started api db₀ ∧ Debugger.Run api db₀ es db ∧
    (connect (VMSide.impl api)).on ⟨new udp, db⟩ = (.ok (), w) ∧ w.client.state = .vmStopped

/-- The runs of calls about registers from `w₀`, whatever each ends with. -/
inductive RegRun (w₀ : World (Debugger V)) : World (Debugger V) → Prop where
  | start : RegRun w₀ w₀
  | call {w w' : World (Debugger V)} {α : Type} {r : Except Fault α} (k : RegCall α) :
      RegRun w₀ w → k.Args T → k.Fits T w → (k.exec api).on w = (r, w') → RegRun w₀ w'

variable {api T} {w : World (Debugger V)}

/-! ## One call -/

/-- What both sides have cached are answers of the VM. -/
abbrev Sound (T : RegTable) : World (Debugger V) → Prop :=
  Ready T (fun _ => True) (fun _ => True) fun _ _ => True

theorem Ready.sound {P : V → Prop} {L : VmReg → Prop} {R : VmReg → Bytes → Prop}
    (h : Ready T P L R w) : Sound T w where
  stopped := h.stopped
  server := (h.server.mono fun _ _ => trivial).with_vm trivial
  cache := { h.cache with
    infos := fun inf hinf => ⟨trivial, (h.cache.infos inf hinf).2⟩
    vals := fun pos inf hinf hne =>
      have h := h.cache.vals pos inf hinf hne
      ⟨h.1, h.2.1, trivial⟩ }

theorem tracks (hvm : api.HasRegs T (fun _ => True) fun _ _ => True) :
    api.TracksRegs T (fun _ _ => True) fun _ _ _ => True where
  answers _ := hvm
  set _ _ _ _ := trivial
  hit _ _ _ := trivial
  miss _ _ _ _ _ _ _ := trivial

/-- Ids that the client has cached are not rejected. -/
theorem Sound.has_iff (h : Sound T w) (ids : List VmReg) :
    (∀ id ∈ ids, T.Has id) ↔ ¬ ∃ id ∈ ids, id ∉ w.client.regiIdxMap ∧ ¬ T.Has id := by
  constructor
  · rintro hall ⟨id, hid, -, hno⟩
    exact hno (hall id hid)
  · intro hno id hid
    by_contra hnot
    exact hno ⟨id, hid, fun hin => hnot (h.cache.has hin), hnot⟩

/-- A query that returns exactly if nothing is rejected. -/
theorem RegCall.answered_of_yields {P : V → Prop} {L : VmReg → Prop} {R : VmReg → Bytes → Prop}
    {p q : Prop} {S : α → World (Debugger V) → Prop} {k : RegCall α}
    (h : Yields (· = w) (Ready T P L R) Caught q p (k.exec api) S) (hq : q)
    (hp : p ↔ ¬ k.Rejected T w) (hS : ∀ a w', S a w' → k.Returns T a) :
    k.Answered api T w ((k.exec api).on w).1 ∧ Sound T ((k.exec api).on w).2 := by
  have := h w rfl
  rcases hrun : (k.exec api).on w with ⟨e | a, w'⟩ <;> rw [hrun] at this
  · obtain ⟨hw', he⟩ := this
    exact ⟨⟨(he hq).2, .inl (not_not.mp (mt hp.mpr (he hq).1))⟩, hw'.sound⟩
  · obtain ⟨hw', ha, hpa⟩ := this
    exact ⟨⟨hp.mp (hpa hq), hS a w' ha⟩, hw'.sound⟩

/-- A call that fits is answered by the VM, and leaves both caches sound. -/
theorem RegCall.exec_answered (hvm : api.HasRegs T (fun _ => True) fun _ _ => True)
    (h : Sound T w) (k : RegCall α) (hargs : k.Args T) (hfits : k.Fits T w) :
    k.Answered api T w ((k.exec api).on w).1 ∧ Sound T ((k.exec api).on w).2 := by
  cases k with
  | findRegsIds names outIds =>
    have := findRegsIds_answered hvm h hargs (fun _ _ _ _ => trivial) hfits.1 hfits.2
    show Answered api T w (findRegsIds names outIds)
      ((DBClient.findRegsIds (VMSide.impl api) names outIds).on w).1 ∧
      Sound T ((DBClient.findRegsIds (VMSide.impl api) names outIds).on w).2
    rcases hrun : (DBClient.findRegsIds (VMSide.impl api) names outIds).on w with ⟨e | ids, w'⟩ <;>
      rw [hrun] at this
    · obtain ⟨hw', he, hrejected⟩ := this
      exact ⟨⟨he, .inl hrejected⟩, hw'⟩
    · obtain ⟨hw', hfinds, hreturns⟩ := this
      refine ⟨⟨?_, hreturns⟩, hw'⟩
      rintro ⟨name, hname, hmiss, hno⟩
      exact hno (hfinds name hname hmiss)
  | getRegsInfos ids outInfos =>
    exact answered_of_yields (getRegsInfos_yields hvm h hargs fun _ _ => trivial) hfits
      (h.has_iff ids) fun infos _ hinfos => hinfos
  | getRegs ids outBufs regsSize =>
    refine answered_of_yields (getRegs_yields hvm h hargs fun _ _ => trivial) hfits
      (h.has_iff ids) ?_
    rintro bufs - ⟨rows, rfl, hrows⟩
    refine ⟨rows, rfl, hrows.imp fun p row hrow => ?_⟩
    obtain ⟨val, buf, -, hbuf, hlen, hrow⟩ := hrow
    exact ⟨val, buf, hbuf, hlen, hrow⟩
  | setRegs ids inBufs regsSize =>
    have := setRegs_spec (tracks hvm) (fun _ => []) h hargs (fun _ _ => trivial) w rfl
    show Answered api T w (setRegs ids inBufs regsSize)
      ((DBClient.setRegs (VMSide.impl api) ids inBufs regsSize).on w).1 ∧
      Sound T ((DBClient.setRegs (VMSide.impl api) ids inBufs regsSize).on w).2
    rcases hrun : (DBClient.setRegs (VMSide.impl api) ids inBufs regsSize).on w with ⟨e | u, w'⟩ <;>
      rw [hrun] at this
    · obtain ⟨he, hrefused, hw'⟩ := this hfits
      refine ⟨⟨he, ?_⟩, hw'⟩
      by_cases hall : ∀ id ∈ ids, T.Has id
      · exact .inr (hrefused hall)
      · exact .inl (not_not.mp (mt (h.has_iff ids).mpr hall))
    · exact ⟨⟨(h.has_iff ids).mp this.1, trivial⟩, this.2⟩

/-! ## Runs -/

theorem cacheOf_new (udp : DBClientUpdate) {L : VmReg → Prop} {R : VmReg → Bytes → Prop} :
    CacheOf T L R (new udp) where
  byIdx := .nil
  byName := .nil
  infos := by simp [new]
  vals := by simp [new]

theorem Connected.sound (hvm : api.HasRegs T (fun _ => True) fun _ _ => True)
    (h : Connected api w) : Sound T w := by
  obtain ⟨db₀, es, db, udp, hs, hrun, hconnect, hstopped⟩ := h
  obtain ⟨-, r, db', hcall, rfl⟩ := connect_ok.mp hconnect
  obtain ⟨rfl, -⟩ := VMSide.connect_ok hcall
  exact ⟨hstopped, hrun.ofTable hvm hs, (cacheOf_new udp).with _ _ _⟩

theorem RegRun.sound (hvm : api.HasRegs T (fun _ => True) fun _ _ => True)
    {w₀ : World (Debugger V)} (h₀ : Connected api w₀) (h : RegRun api T w₀ w) : Sound T w := by
  induction h with
  | start => exact h₀.sound hvm
  | call k _ hargs hfits hrun ih =>
    have := (k.exec_answered hvm ih hargs hfits).2
    rwa [hrun] at this

/-- In a run of calls that fit, whatever they asked for and also after some that threw, every call
is answered as by the VM. -/
theorem RegRun.all_answered (hvm : api.HasRegs T (fun _ => True) fun _ _ => True)
    {w₀ : World (Debugger V)} (h₀ : Connected api w₀) (h : RegRun api T w₀ w) (k : RegCall α)
    (hargs : k.Args T) (hfits : k.Fits T w) : k.Answered api T w ((k.exec api).on w).1 :=
  (k.exec_answered hvm (h.sound hvm h₀) hargs hfits).1

/-! ### A register with two names -/

/-- A VM with one register of one byte, called `r1`, which it also finds under `r01`. -/
def oneByte : VMApi (UpdateInfos × UInt8) where
  getVmInfos vm := (.ok { Debugger.noInfos with memorySize := 100 }, vm)
  getUpdateInfos vm := (.ok vm.1, vm)
  getReg idx infos valOnly vm :=
    if idx = 1 then
      (.ok (if valOnly then { infos with val := [vm.2] }
        else ⟨1, [114, 49], 1, .general, infos.val⟩), vm)
    else (.error [], vm)
  setReg idx newVal vm :=
    match newVal with
    | b :: _ => if idx = 1 then (.ok (), (vm.1, b)) else (.error [], vm)
    | [] => (.error [], vm)
  findRegId name vm :=
    if name = [114, 49] ∨ name = [114, 48, 49] then (.ok 1, vm) else (.error [], vm)
  readMem _ _ vm := (.error [], vm)
  writeMem _ _ _ vm := (.error [], vm)
  getSymbols _ _ vm := (.error [], vm)
  getSymbInfos _ vm := (.error [], vm)
  findSymId _ vm := (.error [], vm)
  getCodeText _ vm := (.error [], vm)

/-- Its registers. -/
def oneByteRegs : RegTable where
  info idx := if idx = 1 then some ⟨[114, 49], 1, .general⟩ else none
  find name := if name = [114, 49] ∨ name = [114, 48, 49] then some 1 else none

theorem oneByteRegs_info {id : VmReg} {d : RegDesc} (h : oneByteRegs.info id = some d) :
    id = 1 ∧ d = ⟨[114, 49], 1, .general⟩ := by
  by_cases hid : id = 1
  · subst hid
    exact ⟨rfl, (Option.some.inj h).symm⟩
  · exact absurd ((if_neg hid).symm.trans h) nofun

theorem oneByteRegs_find {name : Bytes} {id : VmReg} (h : oneByteRegs.find name = some id) :
    id = 1 ∧ (name = [114, 49] ∨ name = [114, 48, 49]) := by
  by_cases hname : name = [114, 49] ∨ name = [114, 48, 49]
  · exact ⟨(Option.some.inj ((if_pos hname).symm.trans h)).symm, hname⟩
  · exact absurd ((if_neg hname).symm.trans h) nofun

theorem oneByte_hasRegs : oneByte.HasRegs oneByteRegs (fun _ => True) fun _ _ => True where
  known infos _ h := by
    obtain ⟨rfl, rfl⟩ := oneByteRegs_info h
    exact ⟨_, rfl, trivial⟩
  unknown := by
    intro id vm infos _ h
    by_cases hid : id = 1
    · subst hid
      cases h
    · exact ⟨[], vm, if_neg hid, trivial⟩
  value old _ h _ := by
    obtain ⟨rfl, rfl⟩ := oneByteRegs_info h
    exact ⟨_, _, rfl, rfl, trivial, trivial⟩
  found := by
    intro name id vm _ h
    obtain ⟨rfl, hname⟩ := oneByteRegs_find h
    exact ⟨vm, if_pos hname, trivial⟩
  notFound := by
    intro name vm _ h
    by_cases hname : name = [114, 49] ∨ name = [114, 48, 49]
    · exact absurd ((if_pos hname).symm.trans h) nofun
    · exact ⟨[], vm, if_neg hname, trivial⟩

/-- Its debugger at the start, with the byte 42. -/
def oneByteDb : Debugger (UpdateInfos × UInt8) :=
  ((Debugger.onInit oneByte).on (.new (⟨.ok, 4⟩, 42) 0)).2

/-- A client that connected after the program was stopped there. -/
def oneByteClient : World (Debugger (UpdateInfos × UInt8)) :=
  ((connect (VMSide.impl oneByte)).on
    ⟨new Serial.blank, { oneByteDb with state := .stopped }⟩).2

theorem oneByteClient_connected : Connected oneByte oneByteClient := by
  refine ⟨oneByteDb, [.call .stop], { oneByteDb with state := .stopped }, Serial.blank,
    ⟨(⟨.ok, 4⟩, 42), 0, rfl⟩, ?_, rfl, rfl⟩
  exact Debugger.Run.start.step (.call (r := .ok ()) rfl trivial)

/-- Its own name, and one that no register has. -/
def nameR1 : CStr := ⟨[114, 49], by decide⟩

def nameR2 : CStr := ⟨[114, 50], by decide⟩

/-- The client asks for the register by its name, for its value, and for a register that there is
not. -/
def oneByteNamed : World (Debugger (UpdateInfos × UInt8)) :=
  (((RegCall.findRegsIds [nameR1] [0]).exec oneByte).on oneByteClient).2

def oneByteValued : World (Debugger (UpdateInfos × UInt8)) :=
  (((RegCall.getRegs [1] [[0]] [1]).exec oneByte).on oneByteNamed).2

def oneByteAsked : World (Debugger (UpdateInfos × UInt8)) :=
  (((RegCall.findRegsIds [nameR1, nameR2] [0, 0]).exec oneByte).on oneByteValued).2

theorem oneByteRegs_fits (id : VmReg) : oneByteRegs.Fits id := fun d hd => by
  rw [(oneByteRegs_info hd).2]
  decide

theorem oneByte_answers {w : World (Debugger (UpdateInfos × UInt8))}
    (h : ∀ id, remembered w nameR1.1 = some id → id = 1) :
    AnswersName oneByteRegs w nameR1.1 where
  cached id hid := by
    rw [h id hid]
    rfl
  own _ id d _ hd := by
    rw [(oneByteRegs_info hd).2]
    rfl

theorem oneByteAsked_run : RegRun oneByte oneByteRegs oneByteClient oneByteAsked := by
  have hnone : remembered oneByteClient nameR1.1 = none := rfl
  have hanswers : AnswersName oneByteRegs oneByteClient nameR1.1 := oneByte_answers fun id hid => by
    cases hnone.symm.trans hid
  have hnamed : RegRun oneByte oneByteRegs oneByteClient oneByteNamed :=
    .call (.findRegsIds [nameR1] [0]) .start (Nat.le_refl 1)
      ⟨fun _ _ _ id _ => oneByteRegs_fits id, .inr (List.forall_mem_singleton.mpr hanswers)⟩ rfl
  have hvalues : ValuesFit oneByteRegs oneByteNamed.client [1] :=
    ⟨List.forall_mem_singleton.mpr fun _ => by decide, by decide⟩
  have hvalued : RegRun oneByte oneByteRegs oneByteClient oneByteValued :=
    .call (.getRegs [1] [[0]] [1]) hnamed
      (List.forall_mem_singleton.mpr ⟨1, [0], rfl, rfl, by decide, fun _ => rfl⟩) hvalues rfl
  have hcached : remembered oneByteValued nameR1.1 = some 1 := rfl
  have hrefuses : RefusesName oneByteRegs oneByteValued [nameR1, nameR2] := by
    refine ⟨[nameR1], nameR2, [], rfl, rfl, ?_, fun n hn hnot => ?_⟩
    · rintro ⟨id, hid, -⟩
      cases hid
    · rw [List.mem_singleton.mp hn, hcached] at hnot
      cases hnot
  exact .call (.findRegsIds [nameR1, nameR2] [0, 0]) hvalued (Nat.le_refl 2)
    ⟨fun _ _ _ id _ => oneByteRegs_fits id, .inl hrefuses⟩ rfl

/-- Asking for the register by its own name is answered, also after a call that threw. -/
theorem RegRun.all_answered_oneByte :
    (RegCall.findRegsIds [nameR1, nameR1] [0, 0]).Answered oneByte oneByteRegs oneByteAsked
      (((RegCall.findRegsIds [nameR1, nameR1] [0, 0]).exec oneByte).on oneByteAsked).1 := by
  have hname : AnswersName oneByteRegs oneByteAsked nameR1.1 := oneByte_answers fun id hid => by
    exact (Option.some.inj hid).symm
  exact RegRun.all_answered oneByte_hasRegs oneByteClient_connected oneByteAsked_run _
    (Nat.le_refl 2) ⟨fun _ _ _ id _ => oneByteRegs_fits id, .inr (by simp [hname])⟩

/-- Asking for it by the other name, which the VM finds too, fails an assertion on the maps. -/
theorem findRegsIds_dies : oneByte.HasRegs oneByteRegs (fun _ => True) (fun _ _ => True) ∧
    Connected oneByte oneByteClient ∧ oneByteRegs.Finds [114, 48, 49] ∧
    ((findRegsIds (VMSide.impl oneByte) [⟨[114, 48, 49], by decide⟩] [0]).on oneByteClient).1 =
      .error .assertFail :=
  ⟨oneByte_hasRegs, oneByteClient_connected, ⟨1, rfl, rfl⟩, rfl⟩

end DBClient

end Odb
