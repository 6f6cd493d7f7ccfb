import Odb.Client.Batches

/-!
# A server that accepts every batch

A VM whose registers have no bytes, which returns from whatever it is asked.

* `Idle.Returns`: a program on its debugger returns.
* `Idle.serve_returns`: so does every batch that is not one of breakpoints.
-/

namespace Odb

open Prog Serial DataClientHandler

namespace Idle

/-- The infos of a register without bytes. -/
def reg : RegInfos := ⟨0, [], 0, .general, []⟩

/-- A VM whose registers have no bytes, which returns from whatever it is asked. -/
def vm : VMApi Unit where
  getVmInfos s := (.ok Debugger.noInfos, s)
  getUpdateInfos s := (.ok ⟨.ok, 0⟩, s)
  getReg _ _ _ s := (.ok reg, s)
  setReg _ _ s := (.ok (), s)
  findRegId _ s := (.ok 0, s)
  readMem _ size s := (.ok (.fill size.toNat 0), s)
  writeMem _ _ _ s := (.ok (), s)
  getSymbols _ _ s := (.ok [], s)
  getSymbInfos _ s := (.ok Serial.blank, s)
  findSymId _ s := (.ok 0, s)
  getCodeText _ s := (.ok ([], 0), s)

/-- The debugger has loaded what the VM says. -/
structure Loaded (db : Debugger Unit) : Prop where
  regs : ∀ (id : VmReg) infos, db.mapRegs[id]? = some infos → infos = reg
  syms : ∀ (id : VmSym) infos, db.mapSyms[id]? = some infos → infos = Serial.blank

variable {α β : Type}

/-- From a debugger that has loaded what the VM says, `c` returns something in `Q`. -/
abbrev Returns (c : DbM Unit α) (Q : α → Prop) : Prop :=
  Spec Loaded c (fun a db => Loaded db ∧ Q a) fun _ _ => False

theorem returns_pure {a : α} {Q : α → Prop} (h : Q a) : Returns (pure a) Q :=
  .ret fun _ hdb => ⟨hdb, h⟩

theorem returns_bind {c : DbM Unit α} {f : α → DbM Unit β} {Q : α → Prop} {R : β → Prop}
    (hc : Returns c Q) (hf : ∀ a, Q a → Returns (f a) R) : Returns (c >>= f) R :=
  .bind hc fun a db h => hf a h.2 db h.1

theorem returns_callVM {f : Unit → Except Bytes α × Unit} {Q : α → Prop} {a : α}
    (hf : f = fun s => (.ok a, s)) (h : Q a) : Returns (Debugger.callVM f) Q := by
  subst hf
  exact fun db hdb => ⟨hdb, h⟩

theorem loadReg_returns (id : VmReg) :
    Spec Loaded (Debugger.loadReg vm id) (fun _ db => Loaded db ∧ id ∈ db.mapRegs)
      fun _ _ => False := by
  intro db hdb
  unfold Debugger.loadReg
  rw [on_bind_ok (on_get db)]
  by_cases hid : id ∈ db.mapRegs
  · rw [if_pos hid]
    exact ⟨hdb, hid⟩
  · rw [if_neg hid]
    refine ⟨⟨fun id' infos h => ?_, hdb.syms⟩, Std.TreeMap.mem_insertIfNew.mpr (.inl ?_)⟩
    · simp only [Std.TreeMap.getElem?_insertIfNew] at h
      split at h
      · exact (Option.some.inj h).symm
      · exact hdb.regs id' infos h
    · exact Std.compare_self

theorem findReg_returns (id : VmReg) :
    Spec (fun db => Loaded db ∧ id ∈ db.mapRegs) (Debugger.findReg id)
      (fun infos db => Loaded db ∧ infos = reg) fun _ _ => False := by
  rintro db ⟨hdb, hid⟩
  obtain ⟨infos, h⟩ := Option.isSome_iff_exists.mp (Std.TreeMap.isSome_getElem?_iff_mem.mpr hid)
  unfold Debugger.findReg
  rw [on_bind_ok (on_get db), h]
  exact ⟨hdb, hdb.regs id infos h⟩

theorem getRegInfos_returns (id : VmReg) : Returns (Debugger.getRegInfos vm id) (· = reg) :=
  .bind (loadReg_returns id) fun _ => findReg_returns id

theorem getReg_returns (id : VmReg) : Returns (Debugger.getReg vm id) (· = []) := by
  refine .bind (loadReg_returns id) fun _ => .bind (findReg_returns id) fun _ => ?_
  rintro db ⟨hdb, -⟩
  refine ⟨⟨fun id' infos h => ?_, hdb.syms⟩, rfl⟩
  simp only [Std.TreeMap.getElem?_insert] at h
  split at h
  · exact (Option.some.inj h).symm
  · exact hdb.regs id' infos h

theorem loadSymbol_returns (id : VmSym) :
    Spec Loaded (Debugger.loadSymbol vm id) (fun _ db => Loaded db ∧ id ∈ db.mapSyms)
      fun _ _ => False := by
  intro db hdb
  unfold Debugger.loadSymbol
  rw [on_bind_ok (on_get db)]
  by_cases hid : id ∈ db.mapSyms
  · rw [if_pos hid]
    exact ⟨hdb, hid⟩
  · rw [if_neg hid]
    refine ⟨⟨hdb.regs, fun id' infos h => ?_⟩, Std.TreeMap.mem_insertIfNew.mpr (.inl ?_)⟩
    · simp only [Std.TreeMap.getElem?_insertIfNew] at h
      split at h
      · exact (Option.some.inj h).symm
      · exact hdb.syms id' infos h
    · exact Std.compare_self

theorem getSymbolInfos_returns (id : VmSym) :
    Returns (Debugger.getSymbolInfos vm id) (· = Serial.blank) := by
  refine .bind (loadSymbol_returns id) fun _ => ?_
  rintro db ⟨hdb, hid⟩
  obtain ⟨infos, h⟩ := Option.isSome_iff_exists.mp (Std.TreeMap.isSome_getElem?_iff_mem.mpr hid)
  rw [on_bind_ok (on_get db), h]
  exact ⟨hdb, hdb.syms id infos h⟩

theorem findRegId_returns (name : Bytes) : Returns (Debugger.findRegId vm name) fun _ => True := by
  intro db hdb
  unfold Debugger.findRegId
  rw [on_bind_ok (on_get db)]
  rcases db.smapRegs[name]? with _ | id
  · have hload (id : VmReg) : Returns (Debugger.loadReg vm id) fun _ => True :=
      .conseq (loadReg_returns id) (fun _ h => h) (fun _ _ h => ⟨h.1, trivial⟩) fun _ _ h => h
    exact returns_bind (Q := fun _ => True) (returns_callVM rfl trivial)
      (fun id _ => returns_bind (hload id) fun _ _ => returns_pure trivial) db hdb
  · exact ⟨hdb, trivial⟩

theorem findSymId_returns (name : Bytes) : Returns (Debugger.findSymId vm name) fun _ => True := by
  have hload (id : VmSym) : Returns (Debugger.loadSymbol vm id) fun _ => True :=
    .conseq (loadSymbol_returns id) (fun _ h => h) (fun _ _ h => ⟨h.1, trivial⟩) fun _ _ h => h
  exact returns_bind (Q := fun _ => True) (returns_callVM rfl trivial) fun id _ =>
    returns_bind (hload id) fun _ _ => returns_pure trivial

theorem fill_returns {xs : List α} {out : List β} {f : α → DbM Unit β} {R : α → β → Prop}
    (hlen : out.length = xs.length) (hf : ∀ x ∈ xs, Returns (f x) (R x)) :
    Returns (VMSide.fill xs out f) (List.Forall₂ R xs) := by
  rw [VMSide.fill_eq hlen]
  exact Spec.mapM xs hf

theorem map_zip_snd {xs : List α} {ys : List β} (h : ys.length = xs.length) (f : β → Nat) :
    (xs.zip ys).map (fun p => f p.2) = ys.map f := by
  have := List.map_map (f := Prod.snd) (g := f) (l := xs.zip ys)
  rw [List.map_snd_zip (Nat.le_of_eq h)] at this
  exact this.symm

theorem getRegs_returns {ids : List VmReg} {bufs : List Bytes} (hlen : bufs.length = ids.length) :
    Returns (VMSide.getRegs vm ids bufs) fun vals =>
      vals.map List.length = bufs.map List.length := by
  unfold VMSide.getRegs
  rw [← hlen, itemsAt_self, lift_ok, pure_bind, ← map_zip_snd hlen List.length]
  refine Spec.conseq (fill_returns (R := fun p y => y.length = p.2.length) (by simp [hlen]) ?_)
    (fun _ h => h) (fun _ _ h => ⟨h.1, VMSide.lengths_eq h.2⟩) fun _ _ h => h
  rintro ⟨id, buf⟩ -
  refine returns_bind (getReg_returns id) fun val hval => ?_
  subst hval
  exact returns_pure rfl

theorem setRegs_returns {ids : List VmReg} {bufs : List Bytes} (hlen : bufs.length = ids.length) :
    Returns (VMSide.setRegs vm ids bufs) fun _ => True := by
  unfold VMSide.setRegs
  rw [← hlen, itemsAt_self, lift_ok, pure_bind]
  exact .conseq (.forM _ fun _ _ _ hdb => hdb) (fun _ h => h) (fun _ _ h => ⟨h, trivial⟩)
    fun _ _ h => h

theorem readMem_returns {addrs : List VmPtr} {sizes : List VmSize} {bufs : List Bytes}
    (hlen : sizes.length = addrs.length) (hbufs : bufs.map List.length = sizes.map UInt64.toNat) :
    Returns (VMSide.readMem vm addrs sizes bufs) fun vals =>
      vals.map List.length = sizes.map UInt64.toNat := by
  rw [VMSide.readMem_eq hlen hbufs, ← map_zip_snd hlen UInt64.toNat]
  refine Spec.conseq (Spec.mapM (R := fun p y => y.length = p.2.toNat) _ ?_) (fun _ h => h)
    (fun _ _ h => ⟨h.1, VMSide.lengths_eq h.2⟩) fun _ _ h => h
  rintro ⟨addr, size⟩ - db hdb
  exact ⟨hdb, List.length_replicate⟩

theorem writeMem_returns {addrs : List VmPtr} {sizes : List VmSize} {bufs : List Bytes}
    (hlen : sizes.length = addrs.length) (hbufs : bufs.map List.length = sizes.map UInt64.toNat) :
    Returns (VMSide.writeMem vm addrs sizes bufs) fun _ => True := by
  have hlen' : bufs.length = addrs.length := by simpa [hlen] using congrArg List.length hbufs
  rw [VMSide.writeMem_rows (Nat.le_of_eq hlen.symm) hlen']
  refine .conseq (.forM _ ?_) (fun _ h => h) (fun _ _ h => ⟨h, trivial⟩) fun _ _ h => h
  rintro ⟨⟨addr, buf⟩, size⟩ hp db hdb
  have hfit : size.toNat ≤ buf.length := by
    obtain ⟨i, hi, hget⟩ := List.mem_iff_getElem.mp hp
    simp only [List.length_zip] at hi
    have hrow := congrArg (·[i]?) hbufs
    simp only [List.getElem_zip, Prod.mk.injEq] at hget
    simp only [List.getElem?_map, List.getElem?_eq_getElem (show i < bufs.length by omega),
      List.getElem?_eq_getElem (show i < sizes.length by omega), Option.map_some,
      Option.some.injEq] at hrow
    rw [← hget.1.2, ← hget.2]
    exact Nat.le_of_eq hrow.symm
  show Outcome _ _ ((Debugger.writeMem vm addr size buf).on db)
  unfold Debugger.writeMem
  rw [dif_pos hfit]
  exact hdb

/-- What a query by ids or by names gives. -/
theorem fill_outs {I : Type} {xs : List α} {out : List I} {f : α → DbM Unit I} {y : I}
    (hlen : out.length = xs.length) (hf : ∀ x, Returns (f x) (· = y)) :
    Returns (VMSide.fill xs out f) fun ys => ys.length = xs.length ∧ ∀ z ∈ ys, z = y := by
  refine Spec.conseq (fill_returns hlen fun x _ => hf x) (fun _ h => h) (fun ys _ h => ⟨h.1, ?_, ?_⟩)
    fun _ _ h => h
  · exact h.2.length_eq.symm
  · exact fun z hz => (forall₂_mem_right h.2 hz).elim fun _ h => h.2

section Serve

variable {ty : ReqType}

/-- The server answers a batch that is not one of breakpoints. -/
theorem serve_returns {r : Req ty} (r₀ : Req ty) (hne : r.elements ≠ []) (h : r.cut.Shaped)
    (hty : ty ≠ .readMem ∧ ty ≠ .writeMem) (hbkps : ty ≠ .addBkps ∧ ty ≠ .delBkps) :
    Returns (serve vm (r.cut.received r₀)) fun s => s.Shaped ∧ r.cut.SameCounts s := by
  cases ty with
  | connect | stop | checkStopped | getSymsByAddr | getCodeText | resume | err =>
    exact absurd rfl hne
  | other => exact r.elim
  | readMem => exact absurd rfl hty.1
  | writeMem => exact absurd rfl hty.2
  | addBkps => exact absurd rfl hbkps.1
  | delBkps => exact absurd rfl hbkps.2
  | getRegs =>
    have hb := ReqFixed.Shaped.blank h
    refine returns_bind (getRegs_returns (hb.bufs.trans hb.ids.symm)) fun vals hvals => ?_
    refine returns_pure ⟨⟨⟨hb.ids, ?_, fun row hrow => ?_⟩, hb.total⟩, rfl, rfl⟩
    · have := congrArg List.length hvals
      rw [List.length_map, List.length_map] at this
      exact this.trans hb.bufs
    · obtain ⟨row', hrow', hlen⟩ := List.mem_map.mp (hvals ▸ List.mem_map_of_mem hrow)
      exact hlen.symm.trans (hb.rows row' hrow')
  | getRegsVar =>
    have hb := ReqVar.Shaped.blank h
    have hlen := congrArg List.length hb.rows
    rw [List.length_map, List.length_map] at hlen
    refine returns_bind (getRegs_returns ((hlen.trans hb.sizes).trans hb.ids.symm)) fun vals hvals => ?_
    exact returns_pure ⟨⟨⟨hb.ids, hb.sizes, hvals.trans hb.rows⟩, hb.total⟩, rfl, rfl⟩
  | setRegs =>
    refine returns_bind (setRegs_returns (h.bufs.trans h.ids.symm)) fun _ _ => ?_
    exact returns_pure ⟨h, rfl, rfl⟩
  | setRegsVar =>
    have hlen := congrArg List.length h.rows
    rw [List.length_map, List.length_map] at hlen
    refine returns_bind (setRegs_returns ((hlen.trans h.sizes).trans h.ids.symm)) fun _ _ => ?_
    exact returns_pure ⟨h, rfl, rfl⟩
  | readMemVar =>
    have hb := ReqVar.Shaped.blank h
    refine returns_bind (readMem_returns (hb.sizes.trans hb.ids.symm) hb.rows) fun vals hvals => ?_
    exact returns_pure ⟨⟨⟨hb.ids, hb.sizes, hvals⟩, hb.total⟩, rfl, rfl⟩
  | writeMemVar =>
    refine returns_bind (writeMem_returns (h.sizes.trans h.ids.symm) h.rows) fun _ _ => ?_
    exact returns_pure ⟨h, rfl, rfl⟩
  | getRegsInfos =>
    have hb := ReqByIds.Shaped.blank h (Nat.zero_le _)
    refine returns_bind (fill_outs (hb.outs.trans hb.ids.symm) getRegInfos_returns) fun outs houts => ?_
    refine returns_pure ⟨⟨hb.ids, houts.1.trans hb.ids, fun x hx => ?_⟩, rfl⟩
    rw [houts.2 x hx]
    exact Nat.zero_le _
  | getSymsByIds =>
    have hb := ReqByIds.Shaped.blank h (Nat.zero_le _)
    refine returns_bind (fill_outs (hb.outs.trans hb.ids.symm) getSymbolInfos_returns) fun outs houts => ?_
    refine returns_pure ⟨⟨hb.ids, houts.1.trans hb.ids, fun x hx => ?_⟩, rfl⟩
    rw [houts.2 x hx]
    exact Nat.zero_le _
  | findRegsIds =>
    have hb := ReqByNames.Shaped.blank h trivial
    refine returns_bind (fill_returns (R := fun _ _ => True) (hb.outs.trans hb.names.symm)
      fun name _ => findRegId_returns name.1) fun outs houts => ?_
    exact returns_pure ⟨⟨hb.names, hb.total, houts.length_eq.symm.trans hb.names,
      fun _ _ => trivial⟩, rfl⟩
  | getSymsByNames =>
    have hb := ReqByNames.Shaped.blank h (Nat.zero_le _)
    refine returns_bind (fill_outs (hb.outs.trans hb.names.symm) fun name =>
      returns_bind (findSymId_returns name.1) fun id _ => getSymbolInfos_returns id) fun outs houts => ?_
    refine returns_pure ⟨⟨hb.names, hb.total, houts.1.trans hb.names, fun x hx => ?_⟩, rfl⟩
    rw [houts.2 x hx]
    exact Nat.zero_le _

end Serve

end Idle

end Odb
