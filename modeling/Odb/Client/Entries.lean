import Odb.Client.Assignments
import Odb.Client.RemoteTransfers
import Odb.Client.Transfers

/-!
# The sizes of registers, wherever they are transferred

Registers are read and set by calls and by commands, of a client in the process of the debugger or
in another one.

* `Entry`: the calls and the commands; `Entry.Transfers`: what each of them transfers.
* `RemoteSound`: a client in another process that has only been told of registers of the VM;
  `RemoteSound.connected`, `RemoteSound.exec`: it is so when it connects and stays so.
* `respects_iff`: the sizes are respected exactly if they go together, in the same process and in
  another one.
-/

namespace Odb

open Prog DBClient SimpleCLIClient

theorem VMApi.TextsFit.logged {V : Type} {api : VMApi V} {T : RegTable} (h : api.TextsFit T) :
    api.logged.TextsFit T :=
  ⟨h.names, fun idx infos valOnly vm => h.getReg idx infos valOnly vm.1,
    fun idx newVal vm => h.setReg idx newVal vm.1⟩

/-- What transfers registers. -/
inductive Entry where
  | getRegs (t : Transfer)
  | setRegs (t : Transfer)
  | preg (name tyName : Bytes) (regs : List Bytes)
  | sreg (name tyName : Bytes) (args : List (Bytes × Bytes))

/-- Which way it does. -/
inductive Direction where
  | get
  | set

namespace Entry

/-- The call or the command. -/
def exec (F : Floats) {σ : Type} (impl : DBClientImpl σ) : Entry → ClientM σ Unit
  | getRegs t => DBClient.getRegs impl t.ids t.bufs t.regsSize >>= fun _ => pure ()
  | setRegs t => DBClient.setRegs impl t.ids t.bufs t.regsSize
  | preg name tyName regs => cmdPreg F impl (name :: tyName :: regs) >>= fun _ => pure ()
  | sreg name tyName args => cmdSreg F impl (name :: tyName :: pairWords args) >>= fun _ => pure ()

/-- The transfer: that of a command is of one size for all registers, which are given by their ids,
and of the bytes of the values, which are numbers. -/
inductive Transfers (F : Floats) : Entry → Direction → Transfer → Prop where
  | getRegs {t : Transfer} : t.Declared → Transfers F (.getRegs t) .get t
  | setRegs {t : Transfer} : t.Declared → Transfers F (.setRegs t) .set t
  | preg {name tyName : Bytes} {regs : List Bytes} {ty : TypeDesc} {ids : List VmReg} :
      TypeDesc.parse tyName = .ok ty → regs ≠ [] →
      List.Forall₂ (fun reg id => rReg reg = .ok (.regId id)) regs ids →
      Transfers F (.preg name tyName regs) .get
        ⟨ids, List.replicate ids.length (List.replicate ty.size 0), [ty.size.toUInt64, 0]⟩
  | sreg {name tyName : Bytes} {args : List (Bytes × Bytes)} {ty : TypeDesc}
      {rows : List (VmReg × Bytes)} :
      TypeDesc.parse tyName = .ok ty → args ≠ [] →
      List.Forall₂ (fun arg row => rReg arg.1 = .ok (.regId row.1) ∧
        ∃ val, rValue F arg.2 = .ok val ∧ loadVal F val ty = .ok row.2) args rows →
      Transfers F (.sreg name tyName args) .set
        ⟨rows.map Prod.fst, rows.map Prod.snd, [ty.size.toUInt64, 0]⟩

end Entry

namespace Transfer

/-- The sizes go together. -/
def Fits {S : Type} (t : Transfer) (T : RegTable) (val : S → VmReg → Bytes)
    (set : VmReg → Bytes → S → Except Bytes Unit × S) (s : S) : Direction → Prop
  | .get => t.Readable T
  | .set => t.Settable T val set s

/-- The buffers are in memory, and so are the values of the registers. -/
structure Held (t : Transfer) (T : RegTable) : Prop where
  bufs : (t.bufs.map List.length).sum ≤ maxBytes
  regs : Holds T t.ids

/-- The sizes go together, for a client in another process. -/
def RemoteFits {S : Type} (t : Transfer) (T : RegTable) (c : DBClient) (val : S → VmReg → Bytes)
    (set : VmReg → Bytes → S → Except Bytes Unit × S) (s : S) : Direction → Prop
  | .get => t.RemoteReadable T c
  | .set => t.RemoteSettable T c val set s

/-- The transfer alone: the buffers of the caller after it. -/
def run {σ : Type} (t : Transfer) (impl : DBClientImpl σ) : Direction → ClientM σ (List Bytes)
  | .get => DBClient.getRegs impl t.ids t.bufs t.regsSize
  | .set => DBClient.setRegs impl t.ids t.bufs t.regsSize >>= fun _ => pure t.bufs

/-- One size for all registers. -/
theorem declared_one {ids : List VmReg} {bufs : List Bytes} {n : Nat} (hn : n < UInt64.size)
    (hcount : bufs.length = ids.length) (hlens : ∀ buf ∈ bufs, buf.length = n) :
    Declared ⟨ids, bufs, [n.toUInt64, 0]⟩ where
  count := hcount
  sizes := .inr rfl
  rows p hp := by
    have hi : p.2 < ids.length :=
      (List.getElem?_eq_some_iff.mp (List.mem_zipIdx_iff_getElem?.mp hp)).1
    have hget : bufs[p.2]? = some _ := List.getElem?_eq_getElem (hcount ▸ hi)
    refine ⟨n.toUInt64, _, ?_, hget, ?_⟩
    · by_cases hone : 1 < ids.length
      · rw [size, regSize, if_pos hone]
        rfl
      · obtain hzero : p.2 = 0 := by omega
        rw [size, regSize, if_neg hone, hzero]
        rfl
    · rw [hlens _ (List.mem_of_getElem? hget)]
      exact (Nat.mod_eq_of_lt hn).symm

end Transfer

/-! ## The commands -/

namespace SimpleCLIClient

section Commands

variable {F : Floats} {σ : Type} (impl : DBClientImpl σ) {ty : TypeDesc} {name tyName : Bytes}
  {ids : List VmReg}

theorem fillIds_ids (ids : List VmReg) : fillIds (ids.map .regId) [] = .ok ids := by
  induction ids with
  | nil => rfl
  | cons id ids ih =>
    rw [List.map_cons, fillIds, ih]
    rfl

/-- Ids are not asked for. -/
theorem resolveRegs_ids (ids : List VmReg) : resolveRegs impl (ids.map .regId) = pure ids := by
  have hnames : regNames (ids.map .regId) = [] := by
    rw [regNames, List.filterMap_map]
    exact List.filterMap_eq_nil_iff.mpr fun _ _ => rfl
  rw [resolveRegs_eq, if_pos hnames, fillIds_ids, lift_ok]

theorem resolveSyms_none {K : Type} {pick : ValueVariant F.Double → Option K}
    {getSymbols : List K → List SymbolInfos → ClientM σ (List SymbolInfos)}
    {vals : List (ValueVariant F.Double)} (h : ∀ val ∈ vals, pick val = none) :
    resolveSyms pick getSymbols vals = pure vals := by
  unfold resolveSyms
  rw [if_pos (List.filterMap_eq_nil_iff.mpr h)]

/-- A value that is stored is a number. -/
theorem loadVal_number {val : ValueVariant F.Double} {buf : Bytes}
    (h : loadVal F val ty = .ok buf) : (∃ n, val = .ival n) ∨ ∃ d, val = .dval d := by
  rcases val with n | d | name | id
  · exact .inl ⟨n, rfl⟩
  · exact .inr ⟨d, rfl⟩
  · cases h
  · cases h

/-- Numbers are not asked for. -/
theorem resolveVals_numbers {vals : List (ValueVariant F.Double)} {bufs : List Bytes}
    (h : List.Forall₂ (fun val buf => loadVal F val ty = .ok buf) vals bufs) :
    resolveVals impl vals = pure vals := by
  have hnumber (val : ValueVariant F.Double) (hval : val ∈ vals) :
      (∃ n, val = .ival n) ∨ ∃ d, val = .dval d := by
    obtain ⟨buf, -, hload⟩ := forall₂_mem_left h hval
    exact loadVal_number hload
  unfold resolveVals
  rw [resolveSyms_none fun val hval => ?_, pure_bind, resolveSyms_none fun val hval => ?_]
  all_goals
    obtain ⟨n, rfl⟩ | ⟨d, rfl⟩ := hnumber val hval
    · rfl
    · rfl

/-- The end of `preg`. -/
def printRegs (F : Floats) (ty : TypeDesc) (regs : List Bytes) (bufs : List Bytes) :
    Except Fault Bytes :=
  concat <$> (regs.zip bufs).mapM fun (name, buf) => do
    return name ++ lit ": " ++ (← printVal F buf ty) ++ lit "\n"

/-- With ids, `preg` is a `get_regs`. -/
theorem cmdPreg_ids {regs : List Bytes} (hname : TypeDesc.parse tyName = .ok ty) (hne : regs ≠ [])
    (hids : List.Forall₂ (fun reg id => rReg reg = .ok (.regId id)) regs ids)
    (hsum : ty.size * ids.length ≤ maxBytes) :
    cmdPreg F impl (name :: tyName :: regs) =
      getRegs impl ids (List.replicate ids.length (List.replicate ty.size 0))
        [ty.size.toUInt64, 0] >>= fun bufs => Prog.lift (printRegs F ty regs bufs) := by
  have hwords : ¬ (name :: tyName :: regs).length < 3 := by
    have := List.length_pos_iff.mpr hne
    rw [List.length_cons, List.length_cons]
    omega
  have hread : regs.mapM rReg = .ok (ids.map .regId) := by
    rw [mapM_eq_ok, List.forall₂_map_right_iff]
    exact hids
  unfold cmdPreg
  rw [if_neg hwords]
  show (Prog.lift (TypeDesc.parse tyName) >>= _ : ClientM σ Bytes) = _
  rw [hname, lift_ok, pure_bind, show (name :: tyName :: regs).drop 2 = regs from rfl, hread,
    lift_ok, pure_bind, resolveRegs_ids, pure_bind, buffers_eq hsum, lift_ok, pure_bind]
  rfl

/-- The words of ids and numbers. -/
theorem read_numbers {args : List (Bytes × Bytes)} {rows : List (VmReg × Bytes)}
    (hrows : List.Forall₂ (fun arg row => rReg arg.1 = .ok (.regId row.1) ∧
      ∃ val, rValue F arg.2 = .ok val ∧ loadVal F val ty = .ok row.2) args rows) :
    ∃ vals, args.mapM (fun (reg, val) => do return (← rReg reg, ← rValue F val)) =
        .ok (((rows.map Prod.fst).map .regId).zip vals) ∧
      List.Forall₂ (fun val buf => loadVal F val ty = .ok buf) vals (rows.map Prod.snd) := by
  induction hrows with
  | nil => exact ⟨[], rfl, .nil⟩
  | @cons arg row args rows hpair _ ih =>
    obtain ⟨hreg, val, hval, hload⟩ := hpair
    obtain ⟨vals, hread, hloads⟩ := ih
    refine ⟨val :: vals, ?_, .cons hload hloads⟩
    rw [List.mapM_cons, hread]
    simp only [hreg, hval]
    rfl

/-- With ids and numbers, `sreg` is a `set_regs`. -/
theorem cmdSreg_ids {args : List (Bytes × Bytes)} {rows : List (VmReg × Bytes)}
    (hname : TypeDesc.parse tyName = .ok ty) (hne : args ≠ [])
    (hrows : List.Forall₂ (fun arg row => rReg arg.1 = .ok (.regId row.1) ∧
      ∃ val, rValue F arg.2 = .ok val ∧ loadVal F val ty = .ok row.2) args rows)
    (hsum : ty.size * rows.length ≤ maxBytes) :
    cmdSreg F impl (name :: tyName :: pairWords args) =
      setRegs impl (rows.map Prod.fst) (rows.map Prod.snd) [ty.size.toUInt64, 0] >>= fun _ =>
        pure [] := by
  have hwords : ¬ ((name :: tyName :: pairWords args).length < 4 ∨
      (name :: tyName :: pairWords args).length % 2 ≠ 0) := by
    have := List.length_pos_iff.mpr hne
    rw [List.length_cons, List.length_cons, length_pairWords]
    omega
  obtain ⟨vals, hread, hloads⟩ := read_numbers hrows
  have hlen : ((rows.map Prod.fst).map RegVariant.regId).length = vals.length := by
    rw [hloads.length_eq, List.length_map, List.length_map, List.length_map]
  unfold cmdSreg
  rw [if_neg hwords]
  show (Prog.lift (TypeDesc.parse tyName) >>= _ : ClientM σ Bytes) = _
  rw [hname, lift_ok, pure_bind,
    show (name :: tyName :: pairWords args).drop 2 = pairWords args from rfl, pairs_pairWords,
    hread, lift_ok, pure_bind, List.map_fst_zip hlen.le, List.map_snd_zip hlen.ge, resolveRegs_ids,
    pure_bind, resolveVals_numbers impl hloads, pure_bind,
    buffers_eq (by rw [List.length_map]; exact hsum), lift_ok, pure_bind, mapM_eq_ok.mpr hloads,
    lift_ok, pure_bind]

theorem length_loadVal {val : ValueVariant F.Double} {buf : Bytes}
    (h : loadVal F val ty = .ok buf) : buf.length = ty.size := by
  have hstore (d : F.Double) (hd : loadVal F (.dval d) ty = .ok buf) : buf.length = ty.size := by
    cases ty with
    | f32 | f64 =>
      obtain rfl := Except.ok.inj hd
      exact Wire.length_leBytes _ _
    | _ =>
      simp only [loadVal, pure_bind] at hd
      split at hd
      · split at hd
        · obtain rfl := Except.ok.inj hd
          exact TypeDesc.length_encode _ _
        · cases hd
      · cases hd
  rcases val with n | d | name | id
  · exact hstore (F.ofInt n) h
  · exact hstore d h
  · cases h
  · cases h

variable (F) in
/-- The bytes of a value are enough to print it. -/
theorem printVal_ok {buf : Bytes} (h : ty.size ≤ buf.length) :
    ∃ text, printVal F buf ty = .ok text := by
  unfold printVal
  rw [if_pos h]
  cases ty <;> exact ⟨_, rfl⟩

variable (F) in
theorem printRows_ok (regs : List Bytes) {bufs : List Bytes}
    (h : ∀ buf ∈ bufs, ty.size ≤ buf.length) :
    ∃ lines, (regs.zip bufs).mapM (fun (name, buf) => do
      return name ++ lit ": " ++ (← printVal F buf ty) ++ lit "\n") = .ok lines := by
  induction regs generalizing bufs with
  | nil => exact ⟨[], rfl⟩
  | cons name regs ih =>
    obtain _ | ⟨buf, bufs⟩ := bufs
    · exact ⟨[], rfl⟩
    rw [List.forall_mem_cons] at h
    obtain ⟨text, htext⟩ := printVal_ok F h.1
    obtain ⟨lines, hlines⟩ := ih h.2
    refine ⟨(name ++ lit ": " ++ text ++ lit "\n") :: lines, ?_⟩
    rw [List.zip_cons_cons, List.mapM_cons, hlines]
    simp only [htext]
    rfl

end Commands

end SimpleCLIClient

namespace Entry

section Transferred

variable {F : Floats} {e : Entry} {dir : Direction} {t : Transfer}

theorem Transfers.declared (h : e.Transfers F dir t) : t.Declared := by
  have hsize (ty : TypeDesc) : ty.size < UInt64.size := ty.size_le.trans_lt (by decide)
  cases h with
  | getRegs ht | setRegs ht => exact ht
  | preg =>
    refine Transfer.declared_one (hsize _) List.length_replicate fun buf hbuf => ?_
    rw [List.eq_of_mem_replicate hbuf, List.length_replicate]
  | sreg _ _ hrows =>
    refine Transfer.declared_one (hsize _) (by simp) fun buf hbuf => ?_
    obtain ⟨row, hrow, rfl⟩ := List.mem_map.mp hbuf
    obtain ⟨arg, -, -, val, -, hload⟩ := forall₂_mem_right hrows hrow
    exact length_loadVal hload

/-- A call or a command is its transfer, and then something that does not fail. -/
theorem Transfers.exec_eq (h : e.Transfers F dir t)
    (hbufs : (t.bufs.map List.length).sum ≤ maxBytes) :
    ∃ after : List Bytes → Except Fault Unit,
      (∀ {σ : Type} (impl : DBClientImpl σ),
        e.exec F impl = t.run impl dir >>= fun bufs => Prog.lift (after bufs)) ∧
      ∀ bufs, bufs.map List.length = t.bufs.map List.length → after bufs = .ok () := by
  cases h with
  | getRegs => exact ⟨fun _ => .ok (), fun impl => rfl, fun _ _ => rfl⟩
  | setRegs =>
    refine ⟨fun _ => .ok (), fun impl => ?_, fun _ _ => rfl⟩
    show _ = (DBClient.setRegs impl _ _ _ >>= _) >>= _
    simp only [bind_assoc, pure_bind, lift_ok]
    exact (bind_pure _).symm
  | @preg name tyName regs ty ids hname hne hids =>
    refine ⟨fun bufs => printRegs F ty regs bufs >>= fun _ => pure (), fun impl => ?_,
      fun bufs hlen => ?_⟩
    · have hsum : ty.size * ids.length ≤ maxBytes := by simpa [Nat.mul_comm] using hbufs
      show cmdPreg F impl (name :: tyName :: regs) >>= _ = (DBClient.getRegs impl ids _ _ >>= _)
      rw [cmdPreg_ids impl hname hne hids hsum, bind_assoc]
      simp only [lift_bind]
      rfl
    · have hlens : ∀ buf ∈ bufs, ty.size ≤ buf.length := fun buf hbuf => by
        have hmem : buf.length ∈ bufs.map List.length := List.mem_map_of_mem hbuf
        rw [hlen, List.map_replicate, List.length_replicate] at hmem
        exact (List.eq_of_mem_replicate hmem).ge
      obtain ⟨lines, hlines⟩ := printRows_ok F regs hlens
      show printRegs F ty regs bufs >>= _ = _
      unfold printRegs
      rw [hlines]
      rfl
  | @sreg name tyName args ty rows hname hne hrows =>
    refine ⟨fun _ => .ok (), fun impl => ?_, fun _ _ => rfl⟩
    have hsum : ty.size * rows.length ≤ maxBytes := by
      have hlens : (rows.map Prod.snd).map List.length = List.replicate rows.length ty.size := by
        refine List.eq_replicate_iff.mpr ⟨by simp, fun n hn => ?_⟩
        obtain ⟨buf, hbuf, rfl⟩ := List.mem_map.mp hn
        obtain ⟨row, hrow, rfl⟩ := List.mem_map.mp hbuf
        obtain ⟨arg, -, -, val, -, hload⟩ := forall₂_mem_right hrows hrow
        exact length_loadVal hload
      rw [hlens] at hbufs
      simpa [Nat.mul_comm] using hbufs
    show cmdSreg F impl (name :: tyName :: pairWords args) >>= _ =
      ((DBClient.setRegs impl (rows.map Prod.fst) (rows.map Prod.snd) _ >>= _) >>= _)
    rw [cmdSreg_ids impl hname hne hrows hsum]
    simp only [bind_assoc, pure_bind, lift_ok]

end Transferred

/-! ## The property -/

section Property

variable {V S : Type} {api : VMApi V} {T : RegTable} {view : V → S} {val : S → VmReg → Bytes}
  {set : VmReg → Bytes → S → Except Bytes Unit × S} {w : World (Debugger (V × SetLog))}
  {t : Transfer} {dir : Direction}

/-- The property does not see what would have been returned. -/
theorem respects_error {α β : Type} {db db' : Debugger (V × SetLog)} {e : Fault} :
    Respects T view val db (.error e : Except Fault α) db' ↔
      Respects T view val db (.error e : Except Fault β) db' := by
  cases e with
  | vmError | stdException | assertFail | undefined => exact Iff.rfl

/-- The property, of a program that has run in the process of the debugger. -/
abbrev Ends (T : RegTable) (view : V → S) (val : S → VmReg → Bytes)
    (db : Debugger (V × SetLog)) {α : Type}
    (p : Except Fault α × World (Debugger (V × SetLog))) : Prop :=
  Respects T view val db p.1 p.2.impl

/-- The property, of a program that has run in another process. -/
abbrev RemoteEnds (T : RegTable) (view : V → S) (val : S → VmReg → Bytes)
    (db : Debugger (V × SetLog)) {α : Type}
    (p : Except Fault α × World (Remote (V × SetLog))) : Prop :=
  Respects T view val db p.1 p.2.impl.db

/-- The buffers keep their sizes. -/
theorem run_lengths (hvm : api.RegFile T view val set) (hw : Sound T w) (ht : t.Declared)
    (hregs : Holds T t.ids) {bufs : List Bytes} {w' : World (Debugger (V × SetLog))}
    (h : (t.run (VMSide.impl api.logged) dir).on w = (.ok bufs, w')) :
    bufs.map List.length = t.bufs.map List.length := by
  cases dir with
  | get =>
    have hspec := getRegs_sized (hvm.logged _ _) hw.at_view ht hregs w rfl
    rw [show (DBClient.getRegs _ t.ids t.bufs t.regsSize).on w = (.ok bufs, w') from h] at hspec
    obtain ⟨-, hcopied, -⟩ := hspec
    have hcount : t.bufs.length = bufs.length := by
      rw [ht.count, ← hcopied.length_eq, List.length_zipIdx]
    refine List.ext_getElem (by simp [hcount]) fun i hi hi' => ?_
    rw [List.length_map] at hi hi'
    have hrows := (List.forall₂_iff_get.mp hcopied).2 i (by simpa [← ht.count] using hi') hi
    obtain ⟨n, v, buf, -, hbuf, hv, hn, hrow⟩ := hrows
    simp only [List.get_eq_getElem, List.getElem_zipIdx, Nat.zero_add] at hbuf hrow
    obtain ⟨_, rfl⟩ := List.getElem?_eq_some_iff.mp hbuf
    rw [List.getElem_map, List.getElem_map, hrow, List.length_append, List.length_take,
      List.length_drop]
    omega
  | set =>
    obtain ⟨_, s, -, hret⟩ := bind_eq_ok.mp h
    rw [Except.ok.inj (Prod.mk.inj hret).1]

/-- In the process of the debugger. -/
theorem run_respects (hvm : api.RegFile T view val set) (hw : Sound T w) (ht : t.Declared)
    (hregs : Holds T t.ids) :
    Ends T view val w.impl ((t.run (VMSide.impl api.logged) dir).on w) ↔
      t.Fits T val set (view w.impl.vm.1) dir := by
  cases dir with
  | get => exact getRegs_respects hvm hw ht hregs rfl
  | set =>
    show Ends T view val w.impl ((DBClient.setRegs _ t.ids t.bufs t.regsSize >>= fun _ =>
      pure t.bufs).on w) ↔ _
    rcases hrun : (DBClient.setRegs (VMSide.impl api.logged) t.ids t.bufs t.regsSize).on w with
      ⟨e | _, w'⟩
    · rw [on_bind_error hrun]
      exact respects_error.trans (setRegs_respects hvm hw ht hregs hrun)
    · rw [on_bind_ok hrun]
      exact setRegs_respects hvm hw ht hregs hrun

theorem exec_respects {F : Floats} {e : Entry} (hvm : api.RegFile T view val set) (hw : Sound T w)
    (ht : e.Transfers F dir t) (hheld : t.Held T) :
    Ends T view val w.impl ((e.exec F (VMSide.impl api.logged)).on w) ↔
      t.Fits T val set (view w.impl.vm.1) dir := by
  obtain ⟨after, hexec, hafter⟩ := ht.exec_eq hheld.bufs
  rw [hexec, ← run_respects hvm hw ht.declared hheld.regs]
  rcases hrun : (t.run (VMSide.impl api.logged) dir).on w with ⟨e | bufs, w'⟩
  · rw [on_bind_error hrun]
    exact respects_error
  · rw [on_bind_ok hrun, hafter bufs (run_lengths hvm hw ht.declared hheld.regs hrun)]
    exact Iff.rfl

/-- A client in another process, of a stopped program: what both sides have is told by the VM. -/
structure RemoteSound (T : RegTable) (w : World (Remote V)) : Prop where
  stopped : w.client.state = .vmStopped
  server : w.impl.db.RegsOf T (fun _ => True) fun _ => True
  cache : Told T w.client

/-- The client of the same process, put into another one. -/
theorem Sound.remote {w : World (Debugger V)} (hw : Sound T w) (is : Bytes) :
    RemoteSound T ⟨w.client, ⟨w.impl, is⟩⟩ := ⟨hw.stopped, hw.server, hw.cache.told⟩

/-- To connect only reads the debugger. -/
theorem keeps_connect (udp : DBClientUpdate) :
    Keeps (fun db : Debugger V => db) (VMSide.connect udp) := by
  refine .bind .get fun _ => .bind (.bind .get fun db => .ite (.ret _) ?_) fun _ => .ret _
  cases db.state with
  | notStarted | stopped | error | exit => exact .ret _
  | runningToFinish | runningBkp | runningStep | runningStepOver | runningStepOut =>
    exact .fail _

theorem exchange_connect (udp : DBClientUpdate) (s : Remote V) :
    ((Remote.exchange api udp [ReqType.connect.toByte]).on s).2.db = s.db := by
  have hreply : Keeps DataClientHandler.Session.db
      (DataClientHandler.runSwitch api udp .connect) :=
    .bind (fun _ => rfl) fun _ =>
      .bind (.zoom (.bind (keeps_connect _) fun _ => .ret _) fun _ _ => rfl) fun _ =>
        .bind (fun _ => rfl) fun _ => .bind (fun _ => rfl) fun _ => .ret _
  have hanswer : ((DataClientHandler.runCommand api udp).on
      ⟨s.db, [ReqType.connect.toByte], []⟩).2.db = s.db := by
    unfold DataClientHandler.runCommand
    rw [answer_on]
    refine Keeps.handle hreply (fun e => ?_) _
    cases e with
    | vmError => exact .bind (fun _ => rfl) fun _ => .bind (fun _ => rfl) fun _ => .ret _
    | stdException | assertFail | undefined => exact .fail _
  unfold Remote.exchange
  rw [on_of]
  rcases hrun : (DataClientHandler.runCommand api udp).on ⟨s.db, [ReqType.connect.toByte], []⟩ with
    ⟨_ | _, t⟩ <;> rw [hrun] at hanswer <;> exact hanswer

/-- A client that connects when the program is stopped. -/
theorem RemoteSound.connected (hvm : api.HasRegs T (fun _ => True) fun _ _ => True)
    {db₀ db : Debugger V} {es : List Debugger.Event} (hs : Debugger.Started api db₀)
    (hrun : Debugger.Run api db₀ es db) {udp udp' : DBClientUpdate} {is : Bytes}
    {w : World (Remote V)}
    (hconnect : (connect (Remote.impl api udp')).on ⟨new udp, ⟨db, is⟩⟩ = (.ok (), w))
    (hstopped : w.client.state = .vmStopped) : RemoteSound T w := by
  obtain ⟨-, r, i, hcall, rfl⟩ := connect_ok.mp hconnect
  have hc : CacheOf T (fun _ => True) (fun _ _ => True) (new udp) := cacheOf_new udp
  have hserver := hrun.ofTable hvm hs
  obtain ⟨req, s, hsend, hret⟩ := bind_eq_ok.mp hcall
  obtain ⟨os, _, hos, hsend⟩ := bind_eq_ok.mp hsend
  obtain ⟨res, s', hexchange, hres⟩ := bind_eq_ok.mp hsend
  have hdb := @exchange_connect _ api udp' ⟨db, is⟩
  cases hos
  cases hret
  obtain ⟨-, rfl⟩ := lift_eq_ok.mp hres
  rw [show (Remote.exchange api udp' [ReqType.connect.toByte]).on ⟨db, is⟩ = (.ok res, s') from
    hexchange] at hdb
  exact ⟨hstopped, hdb ▸ hserver, (hc.with _ _ _).told⟩

section Remote

variable {w : World (Remote (V × SetLog))} {udp : DBClientUpdate}

/-- In another process; the client stays told unless the call fails otherwise. -/
theorem run_remote (hvm : api.RegFile T view val set) (htexts : api.TextsFit T)
    (hw : RemoteSound T w) (ht : t.Declared) (hheld : t.Held T) {r : Except Fault (List Bytes)}
    {w' : World (Remote (V × SetLog))}
    (h : (t.run (Remote.impl api.logged udp) dir).on w = (r, w')) :
    (RemoteEnds T view val w.impl.db (r, w') ↔
      t.RemoteFits T w.client val set (view w.impl.db.vm.1) dir) ∧
    ((∀ e, r = .error e → Caught e) → RemoteSound T w') ∧
    ∀ bufs, r = .ok bufs → bufs.map List.length = t.bufs.map List.length := by
  have hkeep {P : V × SetLog → Prop} {w' : World (Remote (V × SetLog))} (h : Remains T P w w') :
      RemoteSound T w' := ⟨h.state.trans hw.stopped, h.server.with_vm trivial, h.cache⟩
  cases dir with
  | get =>
    have hends := @getRegs_remote _ api.logged _ _ _ udp _ t
      (hvm.logged (view w.impl.db.vm.1) w.impl.db.vm.2) htexts.logged hw.stopped hw.cache
      (hw.server.with_vm ⟨rfl, rfl⟩) ht hheld.regs
    rw [show (DBClient.getRegs _ t.ids t.bufs t.regsSize).on w = (r, w') from h] at hends
    rcases r with e | bufs
    · obtain ⟨hread, hremains⟩ := hends
      refine ⟨?_, fun h => hkeep (hremains (h e rfl)), fun bufs h => by cases h⟩
      by_cases he : Caught e
      · obtain ⟨hview, hlog⟩ := (hremains he).server.vm
        show Respects _ _ _ _ _ _ ↔ t.RemoteReadable T w.client
        rw [respects_same hview hlog, hread]
        exact ⟨fun h => h e rfl, fun h e' he' => Except.error.inj he' ▸ h⟩
      · refine iff_of_false (fun h => ?_) (mt hread.mp he)
        rcases e with _ | _ | _ | _
        · exact he trivial
        all_goals exact h.2
    · obtain ⟨hread, hlens, hremains⟩ := hends
      obtain ⟨hview, hlog⟩ := hremains.server.vm
      refine ⟨?_, fun _ => hkeep hremains, fun bufs' h => by cases h; exact hlens⟩
      show Respects _ _ _ _ _ _ ↔ t.RemoteReadable T w.client
      rw [respects_same hview hlog]
      exact iff_of_true (fun e h => by cases h) hread
  | set =>
    have h : (DBClient.setRegs _ t.ids t.bufs t.regsSize >>= fun _ => pure t.bufs).on w =
      (r, w') := h
    rcases hrun : (DBClient.setRegs (Remote.impl api.logged udp) t.ids t.bufs t.regsSize).on w with
      ⟨e | _, w₁⟩
    · rw [on_bind_error hrun] at h
      obtain ⟨rfl, rfl⟩ := Prod.mk.inj h
      obtain ⟨hends, hremains⟩ := setRegs_remote hvm htexts.logged hw.stopped hw.cache hw.server ht
        hheld.regs hheld.bufs hrun
      exact ⟨respects_error.trans hends,
        fun h => hkeep (hremains fun e' he' => h e' (congrArg _ (Except.error.inj he'))),
        fun bufs h => by cases h⟩
    · rw [on_bind_ok hrun] at h
      obtain ⟨rfl, rfl⟩ := Prod.mk.inj h
      obtain ⟨hends, hremains⟩ := setRegs_remote hvm htexts.logged hw.stopped hw.cache hw.server ht
        hheld.regs hheld.bufs hrun
      exact ⟨hends, fun _ => hkeep (hremains fun e he => by cases he),
        fun bufs h => congrArg _ (Except.ok.inj h).symm⟩

theorem exec_remote {F : Floats} {e : Entry} (hvm : api.RegFile T view val set)
    (htexts : api.TextsFit T) (hw : RemoteSound T w) (ht : e.Transfers F dir t) (hheld : t.Held T) :
    (RemoteEnds T view val w.impl.db ((e.exec F (Remote.impl api.logged udp)).on w) ↔
      t.RemoteFits T w.client val set (view w.impl.db.vm.1) dir) ∧
    (Safe Caught (e.exec F (Remote.impl api.logged udp)) w →
      RemoteSound T ((e.exec F (Remote.impl api.logged udp)).on w).2) := by
  obtain ⟨after, hexec, hafter⟩ := ht.exec_eq hheld.bufs
  rw [hexec]
  rcases hrun : (t.run (Remote.impl api.logged udp) dir).on w with ⟨e | bufs, w'⟩
  · obtain ⟨hends, hsound, -⟩ := run_remote hvm htexts hw ht.declared hheld hrun
    have hthrow := on_bind_error hrun fun bufs => Prog.lift (after bufs)
    rw [hthrow, Safe.iff_of_error hthrow]
    exact ⟨respects_error.trans hends, fun he => hsound fun e' he' => Except.error.inj he' ▸ he⟩
  · obtain ⟨hends, hsound, hlens⟩ := run_remote hvm htexts hw ht.declared hheld hrun
    rw [on_bind_ok hrun, hafter bufs (hlens bufs rfl)]
    exact ⟨hends, fun _ => hsound fun e he => by cases he⟩

/-- A transfer that returns or throws a `VMApi::Error` leaves the client told. -/
theorem RemoteSound.exec {F : Floats} {e : Entry} (hvm : api.RegFile T view val set)
    (htexts : api.TextsFit T) (hw : RemoteSound T w) (ht : e.Transfers F dir t) (hheld : t.Held T)
    (hsafe : Safe Caught (e.exec F (Remote.impl api.logged udp)) w) :
    RemoteSound T ((e.exec F (Remote.impl api.logged udp)).on w).2 :=
  (exec_remote hvm htexts hw ht hheld).2 hsafe

end Remote

/-- The call or the command respects the sizes exactly if they go together, in the same process and
in another one; these conditions are the same where the count of a request reaches all registers. -/
theorem respects_iff {F : Floats} {e : Entry} (hvm : api.RegFile T view val set)
    (ht : e.Transfers F dir t) (hheld : t.Held T) :
    (∀ w, Sound T w → (Ends T view val w.impl ((e.exec F (VMSide.impl api.logged)).on w) ↔
      t.Fits T val set (view w.impl.vm.1) dir)) ∧
    (api.TextsFit T → ∀ (udp : DBClientUpdate) (w : World (Remote (V × SetLog))), RemoteSound T w →
      (RemoteEnds T view val w.impl.db ((e.exec F (Remote.impl api.logged udp)).on w) ↔
        t.RemoteFits T w.client val set (view w.impl.db.vm.1) dir)) ∧
    (t.ids.length < 65536 → ∀ w : World (Debugger (V × SetLog)), Sound T w →
      (t.RemoteFits T w.client val set (view w.impl.vm.1) dir ↔
        t.Fits T val set (view w.impl.vm.1) dir)) := by
  refine ⟨fun w hw => exec_respects hvm hw ht hheld,
    fun htexts udp w hw => (exec_remote hvm htexts hw ht hheld).1, fun hlt w hw => ?_⟩
  cases dir with
  | get => exact Transfer.remoteReadable_iff hw.cache hlt
  | set => exact Transfer.remoteSettable_iff hw.cache hlt

end Property

/-! ### A register of one byte -/

/-- What its `set_reg` does. -/
def setNonZero (id : VmReg) (buf : Bytes) (cur : VmReg → Bytes) :
    Except Bytes Unit × (VmReg → Bytes) :=
  if id = 1 ∧ buf.headD 0 ≠ 0 then (.ok (), Function.update cur 1 [buf.headD 0])
  else (.error [], cur)

theorem nonZero_regFile :
    nonZero.RegFile oneByteRegs nonZeroVals (fun cur => cur) setNonZero where
  answers := nonZero_stores.answers
  sets id buf vm := by
    unfold nonZero setNonZero
    dsimp only
    by_cases h : id = 1 ∧ buf.headD 0 ≠ 0
    · rw [if_pos h, if_pos h]
      refine Prod.ext rfl (funext fun id' => ?_)
      by_cases hid : id' = 1
      · subst hid
        rfl
      · show nonZeroVals (vm.1, buf.headD 0) id' =
          Function.update (nonZeroVals vm) 1 [buf.headD 0] id'
        rw [Function.update_of_ne hid, nonZeroVals, nonZeroVals, if_neg hid, if_neg hid]
    · rw [if_neg h, if_neg h]

theorem nonZero_textsFit : nonZero.TextsFit oneByteRegs where
  names id d h := (oneByteRegs_info h).2 ▸ by decide
  getReg idx infos valOnly vm msg h := by
    by_cases hid : idx = 1
    · subst hid
      cases h
    · have h : (if idx = 1 then _ else _ : Except Bytes RegInfos × _).1 = _ := h
      rw [if_neg hid] at h
      exact Except.error.inj h ▸ Nat.zero_le _
  setReg idx newVal vm msg h := by
    have h : (if idx = 1 ∧ newVal.headD 0 ≠ 0 then _ else _ : Except Bytes Unit × _).1 = _ := h
    split at h
    · cases h
    · exact Except.error.inj h ▸ Nat.zero_le _

/-- Its debugger at the start, with the byte 42. -/
def loggedDb : Debugger ((UpdateInfos × UInt8) × SetLog) :=
  ((Debugger.onInit nonZero.logged).on (.new ((⟨.ok, 4⟩, 42), []) 0)).2

/-- A client that connected after the program was stopped there. -/
def loggedClient : World (Debugger ((UpdateInfos × UInt8) × SetLog)) :=
  ((connect (VMSide.impl nonZero.logged)).on
    ⟨new Serial.blank, { loggedDb with state := .stopped }⟩).2

theorem loggedClient_sound : Sound oneByteRegs loggedClient := by
  refine Connected.sound nonZero_regFile.hasRegs ⟨loggedDb, [.call .stop],
    { loggedDb with state := .stopped }, Serial.blank, ⟨((⟨.ok, 4⟩, 42), []), 0, rfl⟩, ?_, rfl, rfl⟩
  exact Debugger.Run.start.step (.call (r := .ok ()) rfl trivial)

/-- The byte is read with its own size; a client in another process also respects the sizes when the
VM does not have the register. -/
theorem respects_iff_byte :
    Ends oneByteRegs nonZeroVals (fun cur => cur) loggedClient.impl
      ((exec integral (VMSide.impl nonZero.logged) (.preg (lit "preg") (lit "u8") [lit "%1"])).on
        loggedClient) ∧
    RemoteEnds oneByteRegs nonZeroVals (fun cur => cur) loggedClient.impl
      ((exec integral (Remote.impl nonZero.logged Serial.blank)
        (.preg (lit "preg") (lit "u8") [lit "%1"])).on
          ⟨loggedClient.client, ⟨loggedClient.impl, []⟩⟩) ∧
    RemoteEnds oneByteRegs nonZeroVals (fun cur => cur) loggedClient.impl
      ((exec integral (Remote.impl nonZero.logged Serial.blank)
        (.preg (lit "preg") (lit "u32") [lit "%1", lit "%7"])).on
          ⟨loggedClient.client, ⟨loggedClient.impl, []⟩⟩) := by
  have htransfers : Transfers integral (.preg (lit "preg") (lit "u8") [lit "%1"]) .get
      ⟨[1], [[0]], [1, 0]⟩ :=
    .preg (show TypeDesc.parse (lit "u8") = .ok .u8 by decide) (List.cons_ne_nil _ _)
      (.cons (show rReg (lit "%1") = .ok (.regId 1) by decide) .nil)
  have hheld : Transfer.Held ⟨[1], [[0]], [1, 0]⟩ oneByteRegs :=
    ⟨by decide, show [1].sum ≤ maxBytes by decide⟩
  have hfits : Transfer.Readable ⟨[1], [[0]], [1, 0]⟩ oneByteRegs := by
    refine .inr (List.forall_mem_singleton.mpr ⟨by decide, fun size h => ?_⟩)
    exact (Except.ok.inj h) ▸ by decide
  have htransfers' : Transfers integral (.preg (lit "preg") (lit "u32") [lit "%1", lit "%7"]) .get
      ⟨[1, 7], [[0, 0, 0, 0], [0, 0, 0, 0]], [4, 0]⟩ :=
    .preg (show TypeDesc.parse (lit "u32") = .ok .u32 by decide) (List.cons_ne_nil _ _)
      (.cons (show rReg (lit "%1") = .ok (.regId 1) by decide)
        (.cons (show rReg (lit "%7") = .ok (.regId 7) by decide) .nil))
  have hheld' : Transfer.Held ⟨[1, 7], [[0, 0, 0, 0], [0, 0, 0, 0]], [4, 0]⟩ oneByteRegs :=
    ⟨by decide, show [1, 0].sum ≤ maxBytes by decide⟩
  have hunknown : Transfer.RemoteReadable ⟨[1, 7], [[0, 0, 0, 0], [0, 0, 0, 0]], [4, 0]⟩
      oneByteRegs loggedClient.client := by
    refine .inl ⟨7, ?_, by simp [RegTable.Has, oneByteRegs]⟩
    rw [asked_eq (by decide)]
    exact mem_lacked.mpr ⟨by decide, Std.TreeMap.not_mem_emptyc⟩
  have hremote := Sound.remote loggedClient_sound []
  obtain ⟨hhere, hthere, hsame⟩ := respects_iff nonZero_regFile htransfers hheld
  obtain ⟨-, hthere', -⟩ := respects_iff nonZero_regFile htransfers' hheld'
  refine ⟨(hhere _ loggedClient_sound).mpr hfits, ?_, ?_⟩
  · exact (hthere nonZero_textsFit _ _ hremote).mpr
      ((hsame (by decide) _ loggedClient_sound).mpr hfits)
  · exact (hthere' nonZero_textsFit _ _ hremote).mpr hunknown

/-- Four bytes of it are read past its value; four bytes for it are given to the VM, and then an
assertion fails. -/
theorem get_past : nonZero.RegFile oneByteRegs nonZeroVals (fun cur => cur) setNonZero ∧
    Sound oneByteRegs loggedClient ∧
    ((DBClient.getRegs (VMSide.impl nonZero.logged) [1] [[0, 0, 0, 0]] [4]).on loggedClient).1 =
      .error .undefined ∧
    ((DBClient.setRegs (VMSide.impl nonZero.logged) [1] [[1, 2, 3, 4]] [4]).on loggedClient).1 =
      .error .assertFail ∧
    ¬ Ends oneByteRegs nonZeroVals (fun cur => cur) loggedClient.impl
      ((exec integral (VMSide.impl nonZero.logged) (.getRegs ⟨[1], [[0, 0, 0, 0]], [4]⟩)).on
        loggedClient) := by
  refine ⟨nonZero_regFile, loggedClient_sound, rfl, rfl, fun h => ?_⟩
  exact h.2

end Entry

end Odb
