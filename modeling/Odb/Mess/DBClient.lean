import Odb.Mess.DBClientImpl

/-!
# `DBClient` (`mess/db-client.cc`)

The client keeps the state of the connection, what it knows of the stopped program, and a cache of
registers: `_regi_arr` holds their infos and values, two maps say where in it. A member function is
a program on the client and on what its implementation works on.
-/

namespace Odb

open Serial

/-- `DBClient::State`. -/
inductive DBClientState where
  /-- Not connected yet. -/
  | notConnected
  /-- Connection lost. -/
  | disconnected
  /-- Main state where the object is usable. -/
  | vmStopped
  /-- Can only call `stop()` and `check_stopped()`. -/
  | vmRunning
deriving DecidableEq, Repr

structure DBClient where
  state : DBClientState
  udp : DBClientUpdate
  vmInfos : VMInfos
  /-- All reg infos. -/
  regiArr : List RegInfos
  /-- Map reg index => pos in `_regi_arr`. -/
  regiIdxMap : Std.TreeMap VmReg Nat
  /-- Map reg name => pos in `_regi_arr`. -/
  regiNameMap : Std.TreeMap Bytes Nat

namespace DBClient

/-- The constructor; `udp` is what an uninitialized `DBClientUpdate` holds besides its vector. -/
def new (udp : DBClientUpdate) : DBClient where
  state := .notConnected
  udp := { udp with stack := [] }
  vmInfos := blank
  regiArr := []
  regiIdxMap := ∅
  regiNameMap := ∅

/-- The client, and what `_impl` works on. -/
structure World (σ : Type) where
  client : DBClient
  impl : σ

section Parts

variable {σ α : Type}

/-- A program on the client itself. -/
abbrev ClientM (σ : Type) := Prog Fault (World σ)

/-- `_impl->k`. -/
def call (impl : DBClientImpl σ) (k : ImplCall α) : ClientM σ α :=
  .zoom World.impl (fun i w => { w with impl := i }) (impl k)

def modifyClient (f : DBClient → DBClient) : ClientM σ Unit :=
  modify fun w => { w with client := f w.client }

/-- `assert(_state == state)`. -/
def assertState (state : DBClientState) : ClientM σ Unit := do
  Prog.lift (assertThat ((← get).client.state = state))

/-- `_regi_arr[it->second]` with its position, `it` being where `_regi_idx_map` has `id`. -/
def findReg (id : VmReg) : ClientM σ (Nat × RegInfos) := do
  let c := (← get).client
  match c.regiIdxMap[id]? with
  | none => throw .assertFail
  | some pos => match c.regiArr[pos]? with
    | some reg => return (pos, reg)
    | none => throw .undefined

/-- `_regi_arr[it->second]`, `it` being where `_regi_name_map` has `name`. -/
def findRegName (name : Bytes) : ClientM σ RegInfos := do
  let c := (← get).client
  match c.regiNameMap[name]? with
  | none => throw .assertFail
  | some pos => match c.regiArr[pos]? with
    | some reg => return reg
    | none => throw .undefined

/-- `p[i]`. -/
def at' (p : List α) (i : Nat) : Except Fault α :=
  match p[i]? with
  | some x => .ok x
  | none => .error .undefined

/-- `reg_size` of the register at `i`. -/
def regSize (regsSize : List VmSize) (nregs i : Nat) : Except Fault VmSize := do
  if 1 < nregs then
    let second ← at' regsSize 1
    if second = 0 then at' regsSize 0 else at' regsSize i
  else at' regsSize i

/-- `memcpy(dst, src, n)`: the buffer at `dst` after it. -/
def memcpy (dst src : Bytes) (n : Nat) : Except Fault Bytes :=
  if n ≤ src.length ∧ n ≤ dst.length then .ok (src.take n ++ dst.drop n) else .error .undefined

end Parts

/-! ## The cache -/

/-- `_discard_tmp_cache()`. -/
def discardTmpCache (c : DBClient) : DBClient :=
  { c with regiArr := c.regiArr.map fun inf => { inf with val := [] } }

/-- Adds the infos of one register at the end of the array. -/
def addReg (c : DBClient) (inf : RegInfos) : DBClient :=
  { c with
    regiArr := c.regiArr ++ [inf]
    regiIdxMap := c.regiIdxMap.insertIfNew inf.idx c.regiArr.length
    regiNameMap := c.regiNameMap.insertIfNew inf.name c.regiArr.length }

/-- Adds infos to the cache. -/
def addRegs (c : DBClient) (infos : List RegInfos) : DBClient := infos.foldl addReg c

/-- `_regi_arr[pos].val = val`. -/
def setVal (c : DBClient) (pos : Nat) (val : Bytes) : DBClient :=
  { c with regiArr := c.regiArr.modify pos fun inf => { inf with val := val } }

variable {σ : Type} (impl : DBClientImpl σ)

/-- `_fetch_reg_infos_by_id(idxs)`. -/
def fetchRegInfosById (idxs : List VmReg) : ClientM σ Unit := do
  let c := (← get).client
  let miss := idxs.filter fun id => id ∉ c.regiIdxMap
  if miss = [] then return
  let infos ← call impl (.getRegsInfos miss (List.replicate miss.length blank))
  modifyClient (·.addRegs (infos.map fun inf => { inf with val := [] }))

/-- `_fetch_reg_infos_by_name(names)`. -/
def fetchRegInfosByName (names : List CStr) : ClientM σ Unit := do
  let c := (← get).client
  let miss := names.filter fun name => name.1 ∉ c.regiNameMap
  if miss = [] then return
  let idxs ← call impl (.findRegsIds miss (List.replicate miss.length 0))
  fetchRegInfosById impl idxs

/-- The first loop of `_fetch_reg_vals_by_id`: ids and sizes of the registers without a value. -/
def missingVals (idxs : List VmReg) : ClientM σ (List (VmReg × VmSize)) := do
  let regs ← idxs.mapM findReg
  return (regs.filter fun p => p.2.val = []).map fun p => (p.2.idx, p.2.size)

/-- `_fetch_reg_vals_by_id(idxs)`. -/
def fetchRegValsById (idxs : List VmReg) : ClientM σ Unit := do
  fetchRegInfosById impl idxs
  let miss ← missingVals idxs
  if miss = [] then return
  let ids := miss.map Prod.fst
  let sizes := miss.map Prod.snd
  let fullBuff ← Prog.lift (resize maxBytes [] (sizes.foldl (· + ·) 0).toNat 0)
  let missBufs ← Prog.lift (dirBuf (sizes.map UInt64.toNat) fullBuff)
  let vals ← call impl (.getRegs ids missBufs sizes)
  (ids.zip vals).forM fun (id, val) => do
    let (pos, _) ← findReg id
    modifyClient (·.setVal pos val)

/-! ## The calls -/

def connect : ClientM σ Unit := do
  assertState .notConnected
  let (vmInfos, udp) ← call impl (.connect (← get).client.udp)
  modifyClient fun c =>
    { c with vmInfos, udp, state := if udp.stopped then .vmStopped else .vmRunning }

def stop : ClientM σ Unit := do
  assertState .vmRunning
  call impl .stop
  modifyClient ({ · with state := .vmStopped })
  -- need to do another call to get current state infos
  let udp ← call impl (.checkStopped (← get).client.udp)
  modifyClient ({ · with udp })
  Prog.lift (assertThat udp.stopped)

def checkStopped : ClientM σ Unit := do
  assertState .vmRunning
  let udp ← call impl (.checkStopped (← get).client.udp)
  modifyClient ({ · with udp })
  if udp.stopped then
    modifyClient fun c => { c with state := .vmStopped }.discardTmpCache
  else
    modifyClient ({ · with state := .vmRunning })

/-- The buffers at `out_bufs` after `get_regs`. -/
def getRegs (ids : List VmReg) (outBufs : List Bytes) (regsSize : List VmSize) :
    ClientM σ (List Bytes) := do
  assertState .vmStopped
  fetchRegValsById impl ids
  let bufs ← ids.zipIdx.mapM fun (id, i) => do
    let size ← Prog.lift (regSize regsSize ids.length i)
    let (_, reg) ← findReg id
    Prog.lift (assertThat (reg.val ≠ []))
    Prog.lift (do memcpy (← at' outBufs i) reg.val size.toNat)
  return bufs ++ outBufs.drop ids.length

def setRegs (ids : List VmReg) (inBufs : List Bytes) (regsSize : List VmSize) :
    ClientM σ Unit := do
  assertState .vmStopped
  fetchRegInfosById impl ids
  call impl (.setRegs ids inBufs regsSize)
  -- Also update cache value
  ids.zipIdx.forM fun (id, i) => do
    let size ← Prog.lift (regSize regsSize ids.length i)
    let (pos, reg) ← findReg id
    Prog.lift (assertThat (size = reg.size))
    let buf ← Prog.lift (at' inBufs i)
    let val ← Prog.lift (resize maxBytes reg.val size.toNat 0)
    let val ← Prog.lift (memcpy val buf size.toNat)
    modifyClient (·.setVal pos val)

/-- The array at `out_infos` after `get_regs_infos`. -/
def getRegsInfos (ids : List VmReg) (outInfos : List RegInfos) : ClientM σ (List RegInfos) := do
  assertState .vmStopped
  fetchRegInfosById impl ids
  let _ ← Prog.lift (itemsAt outInfos ids.length)
  let infos ← ids.mapM fun id => do
    let (_, reg) ← findReg id
    return reg
  return infos ++ outInfos.drop ids.length

/-- The array at `out_ids` after `find_regs_ids`. -/
def findRegsIds (regNames : List CStr) (outIds : List VmReg) : ClientM σ (List VmReg) := do
  assertState .vmStopped
  fetchRegInfosByName impl regNames
  let _ ← Prog.lift (itemsAt outIds regNames.length)
  let ids ← regNames.mapM fun name => do
    let reg ← findRegName name.1
    return reg.idx
  return ids ++ outIds.drop regNames.length

/-- The calls that only go to the implementation. -/
def forward {α : Type} (k : ImplCall α) : ClientM σ α := do
  assertState .vmStopped
  call impl k

def readMem (srcAddrs : List VmPtr) (bufsSizes : List VmSize) (outBufs : List Bytes) :
    ClientM σ (List Bytes) := forward impl (.readMem srcAddrs bufsSizes outBufs)

def writeMem (dstAddrs : List VmPtr) (bufsSizes : List VmSize) (inBufs : List Bytes) :
    ClientM σ Unit := forward impl (.writeMem dstAddrs bufsSizes inBufs)

def getSymbolsByAddr (addr : VmPtr) (size : VmSize) : ClientM σ (List SymbolInfos) :=
  forward impl (.getSymbolsByAddr addr size)

def getSymbolsByIds (ids : List VmSym) (outInfos : List SymbolInfos) :
    ClientM σ (List SymbolInfos) := forward impl (.getSymbolsByIds ids outInfos)

def getSymbolsByNames (names : List CStr) (outInfos : List SymbolInfos) :
    ClientM σ (List SymbolInfos) := forward impl (.getSymbolsByNames names outInfos)

def getCodeText (addr : VmPtr) (nins : VmSize) : ClientM σ (List Bytes × List VmSize) :=
  forward impl (.getCodeText addr nins)

def addBreakpoints (addrs : List VmPtr) : ClientM σ Unit := forward impl (.addBreakpoints addrs)

def delBreakpoints (addrs : List VmPtr) : ClientM σ Unit := forward impl (.delBreakpoints addrs)

def resume (type : ResumeType) : ClientM σ Unit := do
  assertState .vmStopped
  call impl (.resume type)
  modifyClient ({ · with state := .vmRunning })

/-- What a getter reads off the client. -/
def getter {α : Type} (f : DBClient → α) : ClientM σ α := do
  assertState .vmStopped
  return f (← get).client

def getExecutionPoint : ClientM σ VmPtr := getter (·.udp.addr)

def getStoppedState : ClientM σ StoppedState := getter (·.udp.vmState)

def getCallStack : ClientM σ CallStack := getter (·.udp.stack)

/-! ## What calls that return leave -/

section Ok

variable {impl} {α : Type} {w w' : World σ} {u : Unit}

theorem assertState_ok {state : DBClientState} :
    (assertState state).on w = (.ok u, w') ↔ w.client.state = state ∧ w' = w := by
  unfold assertState
  rw [Prog.on_bind_ok (Prog.on_get w), Prog.lift_eq_ok, assertThat_eq_ok, eq_comm (a := w)]

theorem call_on {k : ImplCall α} {r : Except Fault α} {i : σ} (hk : (impl k).on w.impl = (r, i)) :
    (call impl k).on w = (r, { w with impl := i }) := Prog.on_zoom hk

theorem call_ok {k : ImplCall α} {a : α} :
    (call impl k).on w = (.ok a, w') ↔
      ∃ i, (impl k).on w.impl = (.ok a, i) ∧ w' = { w with impl := i } := by
  unfold call
  rcases h : (impl k).on w.impl with ⟨e | b, i⟩
  · rw [Prog.on_zoom h]
    simp
  · rw [Prog.on_zoom h]
    simp [eq_comm]

theorem modifyClient_ok {f : DBClient → DBClient} :
    (modifyClient f : ClientM σ Unit).on w = (.ok u, w') ↔ w' = { w with client := f w.client } := by
  unfold modifyClient
  simp [eq_comm]

theorem forward_on {k : ImplCall α} {r : Except Fault α} {i : σ} (h : w.client.state = .vmStopped)
    (hk : (impl k).on w.impl = (r, i)) : (forward impl k).on w = (r, { w with impl := i }) := by
  unfold forward call
  rw [Prog.on_bind_ok ((@assertState_ok _ w w () _).mpr ⟨h, rfl⟩), Prog.on_zoom hk]

theorem forward_ok {k : ImplCall α} {a : α} : (forward impl k).on w = (.ok a, w') ↔
    w.client.state = .vmStopped ∧
      ∃ i, (impl k).on w.impl = (.ok a, i) ∧ w' = { w with impl := i } := by
  unfold forward
  simp only [Prog.bind_eq_ok, assertState_ok, call_ok]
  constructor
  · rintro ⟨_, _, ⟨hstate, rfl⟩, hcall⟩
    exact ⟨hstate, hcall⟩
  · rintro ⟨hstate, hcall⟩
    exact ⟨(), w, ⟨hstate, rfl⟩, hcall⟩

theorem getter_on {f : DBClient → α} (h : w.client.state = .vmStopped) :
    (getter f).on w = (.ok (f w.client), w) := by
  unfold getter
  rw [Prog.on_bind_ok ((@assertState_ok _ w w () _).mpr ⟨h, rfl⟩)]
  rfl

theorem connect_ok : (connect impl).on w = (.ok u, w') ↔ w.client.state = .notConnected ∧
    ∃ r i, (impl (.connect w.client.udp)).on w.impl = (.ok r, i) ∧ w' = ⟨{ w.client with
      vmInfos := r.1, udp := r.2, state := if r.2.stopped then .vmStopped else .vmRunning }, i⟩ := by
  unfold connect
  simp only [Prog.bind_eq_ok, assertState_ok, Prog.on_get, call_ok, modifyClient_ok]
  constructor
  · rintro ⟨_, _, ⟨hstate, rfl⟩, _, _, hget, r, _, ⟨i, hcall, rfl⟩, rfl⟩
    cases hget
    exact ⟨hstate, r, i, hcall, rfl⟩
  · rintro ⟨hstate, r, i, hcall, rfl⟩
    exact ⟨(), w, ⟨hstate, rfl⟩, w, w, rfl, r, _, ⟨i, hcall, rfl⟩, rfl⟩

theorem stop_ok : (stop impl).on w = (.ok u, w') ↔ w.client.state = .vmRunning ∧
    ∃ i udp i', (impl .stop).on w.impl = (.ok (), i) ∧
      (impl (.checkStopped w.client.udp)).on i = (.ok udp, i') ∧ udp.stopped = true ∧
      w' = ⟨{ w.client with state := .vmStopped, udp := udp }, i'⟩ := by
  unfold stop
  simp only [Prog.bind_eq_ok, assertState_ok, Prog.on_get, call_ok, modifyClient_ok,
    Prog.lift_eq_ok, assertThat_eq_ok]
  constructor
  · rintro ⟨_, _, ⟨hstate, rfl⟩, _, _, ⟨i, hstop, rfl⟩, _, _, rfl, _, _, hget, udp, _,
      ⟨i', hcheck, rfl⟩, _, _, rfl, hstopped, rfl⟩
    cases hget
    exact ⟨hstate, i, udp, i', hstop, hcheck, hstopped, rfl⟩
  · rintro ⟨hstate, i, udp, i', hstop, hcheck, hstopped, rfl⟩
    exact ⟨(), w, ⟨hstate, rfl⟩, (), _, ⟨i, hstop, rfl⟩, (), _, rfl, _, _, rfl, udp, _,
      ⟨i', hcheck, rfl⟩, (), _, rfl, hstopped, rfl⟩

theorem checkStopped_ok : (checkStopped impl).on w = (.ok u, w') ↔ w.client.state = .vmRunning ∧
    ∃ udp i, (impl (.checkStopped w.client.udp)).on w.impl = (.ok udp, i) ∧
      w' = ⟨if udp.stopped then { w.client with udp, state := .vmStopped }.discardTmpCache
        else { w.client with udp, state := .vmRunning }, i⟩ := by
  unfold checkStopped
  simp only [Prog.bind_eq_ok, assertState_ok, Prog.on_get, call_ok, modifyClient_ok]
  constructor
  · rintro ⟨_, _, ⟨hstate, rfl⟩, _, _, hget, udp, _, ⟨i, hcheck, rfl⟩, _, _, rfl, hrest⟩
    cases hget
    refine ⟨hstate, udp, i, hcheck, ?_⟩
    split at hrest
    · next hstopped =>
      rw [if_pos hstopped]
      exact modifyClient_ok.mp hrest
    · next hstopped =>
      rw [if_neg hstopped]
      exact modifyClient_ok.mp hrest
  · rintro ⟨hstate, udp, i, hcheck, rfl⟩
    refine ⟨(), w, ⟨hstate, rfl⟩, w, w, rfl, udp, _, ⟨i, hcheck, rfl⟩, (), _, rfl, ?_⟩
    split <;> exact modifyClient_ok.mpr rfl

theorem resume_ok {type : ResumeType} : (resume impl type).on w = (.ok u, w') ↔
    w.client.state = .vmStopped ∧ ∃ i, (impl (.resume type)).on w.impl = (.ok (), i) ∧
      w' = ⟨{ w.client with state := .vmRunning }, i⟩ := by
  unfold resume
  simp only [Prog.bind_eq_ok, assertState_ok, call_ok, modifyClient_ok]
  constructor
  · rintro ⟨_, _, ⟨hstate, rfl⟩, _, _, ⟨i, hcall, rfl⟩, rfl⟩
    exact ⟨hstate, i, hcall, rfl⟩
  · rintro ⟨hstate, i, hcall, rfl⟩
    exact ⟨(), w, ⟨hstate, rfl⟩, (), _, ⟨i, hcall, rfl⟩, rfl⟩

end Ok

end DBClient

end Odb
