import Odb.Client.RegValues

/-!
# The values in the client's cache while the program goes on and stops

A client and the debugger that it asks: calls about registers, and the program resumed, run and
stopped, by itself or by `stop`. Between them the VM does what it likes.

* `ClientRun`: the runs of calls that return.
* `Unchanged`: the registers with a value in the cache are as when the program was resumed.
* `stop_coherent_iff`: `stop` leaves a coherent cache exactly then.
* `ClientRun.values_current`: if they are at every `stop`, the cache is coherent whenever the program
  is stopped.
-/

namespace Odb

open Prog

namespace DBClient

variable {V : Type} (api : VMApi V) (T : RegTable) (values : V → VmReg → Bytes)

/-- The runs of a client. Every call returns, `C` holds before every `stop`, and the VM runs only
between a `resume` and the end of the program's run that the client sees. The first index is what
the registers were when the client last left the program to itself. -/
inductive ClientRun (C : (VmReg → Bytes) → World (Debugger V) → Prop) :
    (VmReg → Bytes) → World (Debugger V) → Prop where
  | connect {db₀ db : Debugger V} {es : List Debugger.Event} {udp : DBClientUpdate}
      {w : World (Debugger V)} : Debugger.Started api db₀ → Debugger.Run api db₀ es db →
      (connect (VMSide.impl api)).on ⟨new udp, db⟩ = (.ok (), w) →
      ClientRun C (values w.impl.vm) w
  | call {cur : VmReg → Bytes} {w w' : World (Debugger V)} {α : Type} {a : α} (k : RegCall α) :
      ClientRun C cur w → k.Args T → (k.exec api).on w = (.ok a, w') → ClientRun C cur w'
  | resume {cur : VmReg → Bytes} {w w' : World (Debugger V)} {type : ResumeType} :
      ClientRun C cur w → (resume (VMSide.impl api) type).on w = (.ok (), w') →
      ClientRun C (values w'.impl.vm) w'
  | update {cur : VmReg → Bytes} {w : World (Debugger V)} {udp : UpdateInfos} {db : Debugger V} :
      ClientRun C cur w → w.client.state = .vmRunning →
      Debugger.Step api w.impl (.update udp) db → ClientRun C cur { w with impl := db }
  | checkStopped {cur : VmReg → Bytes} {w w' : World (Debugger V)} :
      ClientRun C cur w → (checkStopped (VMSide.impl api)).on w = (.ok (), w') →
      ClientRun C cur w'
  | stop {cur : VmReg → Bytes} {w w' : World (Debugger V)} : ClientRun C cur w → C cur w →
      (stop (VMSide.impl api)).on w = (.ok (), w') → ClientRun C cur w'

/-- The registers with a value in the cache are as in `cur`. -/
def Unchanged (cur : VmReg → Bytes) (w : World (Debugger V)) : Prop :=
  ∀ id, w.client.cached id ≠ [] → values w.impl.vm id = cur id

/-- What both sides have cached are answers of the VM, and the values in the cache of the client are
those in `cur`. -/
structure Left (cur : VmReg → Bytes) (w : World (Debugger V)) : Prop where
  server : w.impl.OfTable T
  cache : CacheOf T (fun _ => True) (fun id val => val = cur id) w.client

variable {api T values} {cur : VmReg → Bytes} {w w' : World (Debugger V)}

/-! ## What each call leaves -/

theorem onControl_ok {f : DbControl → Except Fault DbControl} {db db' : Debugger V}
    (h : (Debugger.onControl f).on db = (.ok (), db')) :
    db'.vm = db.vm ∧ Debugger.regMaps db' = Debugger.regMaps db := by
  rw [Debugger.onControl_on] at h
  split at h
  · obtain ⟨-, rfl⟩ := Prod.mk.inj h
    exact ⟨rfl, rfl⟩
  · cases h

theorem CacheOf.discard {R R' : VmReg → Bytes → Prop} {L : VmReg → Prop} {c : DBClient}
    (h : CacheOf T L R c) : CacheOf T L R' c.discardTmpCache := by
  have hkey {κ : Type} (key : RegInfos → κ) (hval : ∀ inf, key { inf with val := [] } = key inf) :
      (c.discardTmpCache.regiArr).map key = c.regiArr.map key := by
    rw [discardTmpCache, List.map_map]
    exact List.map_congr_left fun inf _ => hval inf
  refine ⟨h.byIdx.congr (hkey _ fun _ => rfl), h.byName.congr (hkey _ fun _ => rfl), ?_, ?_⟩
  · refine List.forall_mem_map.mpr fun inf hinf => h.infos inf hinf
  · intro pos inf hinf hne
    obtain ⟨x, -, rfl⟩ := List.mem_map.mp (List.mem_of_getElem? hinf)
    exact absurd rfl hne

/-- Values in the cache that the registers have. -/
theorem CacheOf.current {c : DBClient}
    (h : CacheOf T (fun _ => True) (fun id val => val = cur id) c) {vals : VmReg → Bytes}
    (heq : ∀ id, c.cached id ≠ [] → vals id = cur id) :
    CacheOf T (fun _ => True) (fun id val => val = vals id) c :=
  { h with
    vals := fun pos inf hinf hne => by
      obtain ⟨hpos, hlen, hval⟩ := h.vals pos inf hinf hne
      refine ⟨hpos, hlen, hval.trans (heq inf.idx ?_).symm⟩
      rwa [cached_of_pos hpos hinf] }

/-- A value in the cache. -/
theorem CacheOf.cached_of {R : VmReg → Bytes → Prop} {L : VmReg → Prop} {c : DBClient}
    (h : CacheOf T L R c) {id : VmReg} (hne : c.cached id ≠ []) : R id (c.cached id) := by
  rcases hpos : c.regiIdxMap[id]? with _ | pos
  · exact absurd (by rw [cached, hpos]; rfl) hne
  obtain ⟨inf, hinf, rfl⟩ := h.byIdx.at_pos hpos
  rw [cached_of_pos hpos hinf] at hne ⊢
  exact (h.vals pos inf hinf hne).2.2

theorem Coherent.left (h : Coherent T values w) : Left T (values w.impl.vm) w :=
  ⟨h.server.with_vm trivial, h.cache⟩

/-- A call about registers is for a program that is stopped. -/
theorem RegCall.stopped_of_ok {α : Type} {a : α} (k : RegCall α)
    (h : (k.exec api).on w = (.ok a, w')) : w.client.state = .vmStopped := by
  have hassert {β : Type} {c : Unit → ClientM (Debugger V) β} {b : β}
      (h : (assertState .vmStopped >>= c).on w = (.ok b, w')) : w.client.state = .vmStopped := by
    obtain ⟨_, _, hstate, -⟩ := bind_eq_ok.mp h
    exact (assertState_ok.mp hstate).1
  cases k with
  | findRegsIds | getRegsInfos | getRegs | setRegs => exact hassert h

/-- `stop` leaves the cache, and the registers. -/
theorem stop_leaves (h : (stop (VMSide.impl api)).on w = (.ok (), w')) :
    w'.impl.vm = w.impl.vm ∧ Debugger.regMaps w'.impl = Debugger.regMaps w.impl ∧
      ∃ udp, w'.client = { w.client with state := .vmStopped, udp } := by
  obtain ⟨-, i, udp, i', hstop, hcheck, -, rfl⟩ := stop_ok.mp h
  obtain ⟨hvm, hmaps⟩ := onControl_ok hstop
  obtain ⟨rfl, -⟩ := VMSide.checkStopped_ok hcheck
  exact ⟨hvm, hmaps, udp, rfl⟩

/-- After a `stop` that returns, the cache is coherent exactly if the registers with a value in it
are what they were. -/
theorem stop_coherent_iff (hleft : Left T cur w)
    (h : (stop (VMSide.impl api)).on w = (.ok (), w')) :
    Coherent T values w' ↔ Unchanged values cur w := by
  obtain ⟨hvm, hmaps, udp, hclient⟩ := stop_leaves h
  have hcached (id : VmReg) : w'.client.cached id = w.client.cached id := by
    rw [hclient]
    rfl
  constructor
  · intro hw' id hne
    have hnow := hw'.cache.cached_of (hcached id ▸ hne)
    rw [hcached, hvm] at hnow
    exact hnow.symm.trans (hleft.cache.cached_of hne)
  · intro hsame
    have hserver : w'.impl.OfTable T := hleft.server.congr hmaps
    have hcache := hleft.cache.current hsame
    refine ⟨by rw [hclient], hserver.with_vm rfl, ?_⟩
    rw [hvm, hclient]
    exact hcache.with _ _ _

/-! ## Runs -/

/-- What holds in a run: the client is about to be asked, and the cache is coherent; or the program
is left to itself, and the values in the cache are those before. -/
inductive Inv (T : RegTable) (values : V → VmReg → Bytes) (cur : VmReg → Bytes)
    (w : World (Debugger V)) : Prop where
  | stopped : Coherent T values w → Inv T values cur w
  | running : w.client.state = .vmRunning → Left T cur w → Inv T values cur w

section Runs

variable (hvm : api.Stores T values)
include hvm

theorem Inv.connect {db₀ db : Debugger V} {es : List Debugger.Event} {udp : DBClientUpdate}
    (hs : Debugger.Started api db₀) (hrun : Debugger.Run api db₀ es db)
    (h : (DBClient.connect (VMSide.impl api)).on ⟨new udp, db⟩ = (.ok (), w)) :
    Inv T values (values w.impl.vm) w := by
  obtain ⟨-, r, db', hcall, rfl⟩ := connect_ok.mp h
  obtain ⟨rfl, -⟩ := VMSide.connect_ok hcall
  have hserver : db'.OfTable T := hrun.ofTable hvm.hasRegs hs
  by_cases hstopped : r.2.stopped = true
  · exact .stopped ⟨if_pos hstopped, hserver.with_vm rfl, (cacheOf_new udp).with _ _ _⟩
  · exact .running (if_neg hstopped) ⟨hserver, (cacheOf_new udp).with _ _ _⟩

theorem Inv.call (hw : Inv T values cur w) {α : Type} {a : α} (k : RegCall α) (hargs : k.Args T)
    (h : (k.exec api).on w = (.ok a, w')) : Inv T values cur w' := by
  rcases hw with hw | ⟨hrunning, -⟩
  · exact .stopped (hw.call hvm k hargs h fun _ => ⟨a, rfl⟩)
  · rw [k.stopped_of_ok h] at hrunning
    cases hrunning

omit hvm in
theorem Inv.resume (hw : Inv T values cur w) {type : ResumeType}
    (h : (DBClient.resume (VMSide.impl api) type).on w = (.ok (), w')) :
    Inv T values (values w'.impl.vm) w' := by
  obtain ⟨hstopped, i, hcall, rfl⟩ := resume_ok.mp h
  have hcall : (Debugger.onControl (·.resume type)).on w.impl = (.ok (), i) := hcall
  obtain ⟨hvm, hmaps⟩ := onControl_ok hcall
  rcases hw with hw | ⟨hrunning, -⟩
  · have hleft := hw.left
    refine .running rfl ⟨hleft.server.congr hmaps, ?_⟩
    show CacheOf T _ (fun id val => val = values i.vm id) _
    rw [hvm]
    exact hleft.cache.with _ _ _
  · rw [hrunning] at hstopped
    cases hstopped

theorem Inv.update (hw : Inv T values cur w) (hrunning : w.client.state = .vmRunning)
    {udp : UpdateInfos} {db : Debugger V} (h : Debugger.Step api w.impl (.update udp) db) :
    Inv T values cur { w with impl := db } := by
  rcases hw with hw | ⟨-, hleft⟩
  · rw [hw.stopped] at hrunning
    cases hrunning
  · exact .running hrunning ⟨h.ofTable hvm.hasRegs hleft.server, hleft.cache⟩

omit hvm in
theorem Inv.checkStopped (hw : Inv T values cur w)
    (h : (DBClient.checkStopped (VMSide.impl api)).on w = (.ok (), w')) :
    Inv T values cur w' := by
  obtain ⟨hrunning, udp, i, hcall, rfl⟩ := checkStopped_ok.mp h
  obtain ⟨rfl, -⟩ := VMSide.checkStopped_ok hcall
  rcases hw with hw | ⟨-, hleft⟩
  · rw [hw.stopped] at hrunning
    cases hrunning
  · by_cases hstopped : udp.stopped = true
    · rw [if_pos hstopped]
      exact .stopped ⟨rfl, hleft.server.with_vm rfl, CacheOf.discard (hleft.cache.with _ _ _)⟩
    · rw [if_neg hstopped]
      exact .running rfl ⟨hleft.server, hleft.cache.with _ _ _⟩

omit hvm in
theorem Inv.stop (hw : Inv T values cur w) (hsame : Unchanged values cur w)
    (h : (DBClient.stop (VMSide.impl api)).on w = (.ok (), w')) : Inv T values cur w' := by
  rcases hw with hw | ⟨-, hleft⟩
  · have hrunning := (stop_ok.mp h).1
    rw [hw.stopped] at hrunning
    cases hrunning
  · exact .stopped ((stop_coherent_iff hleft h).mpr hsame)

end Runs

section Main

variable (hvm : api.Stores T values)
include hvm

theorem ClientRun.inv (h : ClientRun api T values (Unchanged values) cur w) :
    Inv T values cur w := by
  induction h with
  | connect hs hrun hconnect => exact .connect hvm hs hrun hconnect
  | call k _ hargs hcall ih => exact ih.call hvm k hargs hcall
  | resume _ hresume ih => exact ih.resume hresume
  | update _ hrunning hstep ih => exact ih.update hvm hrunning hstep
  | checkStopped _ hcheck ih => exact ih.checkStopped hcheck
  | stop _ hsame hstop ih => exact ih.stop hsame hstop

/-- In a run where every `stop` finds the registers with a value in the cache as they were when the
program was resumed: whenever the program is stopped, the values in the cache are current, and
`get_regs` gives current values. A further `stop` leaves such a cache exactly if it finds them
so. -/
theorem ClientRun.values_current (h : ClientRun api T values (Unchanged values) cur w) :
    (w.client.state = .vmStopped → Coherent T values w ∧
      ∀ ids outBufs regsSize, SizedArgs T ids outBufs regsSize →
        GetsCurrent api T values w ids outBufs regsSize) ∧
    ∀ w', (DBClient.stop (VMSide.impl api)).on w = (.ok (), w') →
      (Coherent T values w' ↔ Unchanged values cur w) := by
  rcases h.inv hvm with hw | ⟨hrunning, hleft⟩
  · refine ⟨fun _ => ⟨hw, fun _ _ _ hargs => hw.getsCurrent hvm hargs⟩, fun w' hstop => ?_⟩
    have hrunning := (stop_ok.mp hstop).1
    rw [hw.stopped] at hrunning
    cases hrunning
  · refine ⟨fun hstopped => ?_, fun w' hstop => stop_coherent_iff hleft hstop⟩
    rw [hrunning] at hstopped
    cases hstopped

end Main

/-! ### A register that changes while the program runs -/

/-- The client that has read 42 resumes the program. -/
def resumedClient : World (Debugger (UpdateInfos × UInt8)) :=
  ((resume (VMSide.impl nonZero) .continue).on readClient).2

/-- An instruction that leaves `b` in the register. -/
def updatedClient (b : UInt8) : World (Debugger (UpdateInfos × UInt8)) :=
  { resumedClient with
    impl := ((Debugger.onUpdate nonZero).on { resumedClient.impl with vm := (⟨.ok, 5⟩, b) }).2 }

/-- Then it stops the program. -/
def stoppedClient (b : UInt8) : World (Debugger (UpdateInfos × UInt8)) :=
  ((stop (VMSide.impl nonZero)).on (updatedClient b)).2

/-- The run up to the `stop`. -/
theorem updatedClient_run {C : (VmReg → Bytes) → World (Debugger (UpdateInfos × UInt8)) → Prop}
    (b : UInt8) : ClientRun nonZero oneByteRegs nonZeroVals C (nonZeroVals resumedClient.impl.vm)
      (updatedClient b) := by
  have hs : Debugger.Started nonZero oneByteDb := ⟨(⟨.ok, 4⟩, 42), 0, rfl⟩
  have hrun : Debugger.Run nonZero oneByteDb [.call .stop] { oneByteDb with state := .stopped } :=
    Debugger.Run.start.step (.call (r := .ok ()) rfl trivial)
  have hconnect : ClientRun nonZero oneByteRegs nonZeroVals C (nonZeroVals oneByteClient.impl.vm)
      oneByteClient := .connect hs hrun (show (connect (VMSide.impl nonZero)).on
        ⟨new Serial.blank, { oneByteDb with state := .stopped }⟩ = (.ok (), oneByteClient) from rfl)
  have hread : ClientRun nonZero oneByteRegs nonZeroVals C (nonZeroVals oneByteClient.impl.vm)
      readClient :=
    hconnect.call (.getRegs [1] [[0]] [1])
      (List.forall_mem_singleton.mpr ⟨1, [0], rfl, rfl, by decide, fun _ => rfl⟩) rfl
  have hresume : ClientRun nonZero oneByteRegs nonZeroVals C (nonZeroVals resumedClient.impl.vm)
      resumedClient := hread.resume (show (resume (VMSide.impl nonZero) .continue).on readClient =
        (.ok (), resumedClient) from rfl)
  have hupdate : Debugger.Step nonZero resumedClient.impl (.update ⟨.ok, 5⟩)
      (updatedClient b).impl :=
    .update (show nonZero.getUpdateInfos (⟨.ok, 5⟩, b) = (.ok ⟨.ok, 5⟩, (⟨.ok, 5⟩, b)) from rfl) rfl
  exact hresume.update rfl hupdate

/-- The `stop` is the end of a run. -/
theorem stoppedClient_run {C : (VmReg → Bytes) → World (Debugger (UpdateInfos × UInt8)) → Prop}
    (b : UInt8) (h : C (nonZeroVals resumedClient.impl.vm) (updatedClient b)) :
    ClientRun nonZero oneByteRegs nonZeroVals C (nonZeroVals resumedClient.impl.vm)
      (stoppedClient b) :=
  (updatedClient_run b).stop h rfl

/-- An instruction that does not change the register. -/
theorem values_current_same :
    Coherent oneByteRegs nonZeroVals (stoppedClient 42) ∧
      ∀ ids outBufs regsSize, SizedArgs oneByteRegs ids outBufs regsSize →
        GetsCurrent nonZero oneByteRegs nonZeroVals (stoppedClient 42) ids outBufs regsSize :=
  (ClientRun.values_current nonZero_stores (stoppedClient_run 42 fun _ _ => rfl)).1 rfl

/-- One that takes it to 43: `get_regs` still gives 42 after `stop`. -/
theorem stop_stale : nonZero.Stores oneByteRegs nonZeroVals ∧
    ClientRun nonZero oneByteRegs nonZeroVals (fun _ _ => True) (nonZeroVals resumedClient.impl.vm)
      (stoppedClient 43) ∧
    (stoppedClient 43).client.state = .vmStopped ∧ nonZeroVals (stoppedClient 43).impl.vm 1 = [43] ∧
    (getRegs (VMSide.impl nonZero) [1] [[0]] [1]).on (stoppedClient 43) =
      (.ok [[42]], stoppedClient 43) ∧
    ¬ Coherent oneByteRegs nonZeroVals (stoppedClient 43) :=
  ⟨nonZero_stores, stoppedClient_run 43 trivial, rfl, rfl, rfl, fun h =>
    absurd (h.cache.cached_of (show (stoppedClient 43).client.cached 1 ≠ [] by decide)) (by decide)⟩

end DBClient

end Odb
