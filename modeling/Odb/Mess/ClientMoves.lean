import Odb.Mess.DBClient
import Odb.Mess.Request

/-!
# What the calls of a client do

A call of `DBClient` makes calls of the implementation and changes its cache.

* `ApiCall`: the member functions of `DBClient`.
* `ApiCall.types`, `ImplCall.type`: which calls of the implementation each of them makes.
* `ApiCall.moves`: what these calls do to the implementation is all that the call does, but for the
  cache.
-/

namespace Odb

open Prog

/-- The failures that the server and the commands catch. -/
def Caught : Fault → Prop
  | .vmError _ => True
  | _ => False

/-- The request that stands for the call; of two, the one with a size for each item. -/
def ImplCall.type : {α : Type} → ImplCall α → ReqType
  | _, connect _ => .connect
  | _, stop => .stop
  | _, checkStopped _ => .checkStopped
  | _, getRegs _ _ _ => .getRegsVar
  | _, setRegs _ _ _ => .setRegsVar
  | _, getRegsInfos _ _ => .getRegsInfos
  | _, findRegsIds _ _ => .findRegsIds
  | _, readMem _ _ _ => .readMemVar
  | _, writeMem _ _ _ => .writeMemVar
  | _, getSymbolsByIds _ _ => .getSymsByIds
  | _, getSymbolsByAddr _ _ => .getSymsByAddr
  | _, getSymbolsByNames _ _ => .getSymsByNames
  | _, getCodeText _ _ => .getCodeText
  | _, addBreakpoints _ => .addBkps
  | _, delBreakpoints _ => .delBkps
  | _, resume _ => .resume

namespace DBClient

/-- The member functions of `DBClient`, with their arguments; a getter is what it reads. -/
inductive ApiCall : Type → Type 1 where
  | connect : ApiCall Unit
  | stop : ApiCall Unit
  | checkStopped : ApiCall Unit
  | getRegs (ids : List VmReg) (outBufs : List Bytes) (regsSize : List VmSize) :
    ApiCall (List Bytes)
  | setRegs (ids : List VmReg) (inBufs : List Bytes) (regsSize : List VmSize) : ApiCall Unit
  | getRegsInfos (ids : List VmReg) (outInfos : List RegInfos) : ApiCall (List RegInfos)
  | findRegsIds (regNames : List CStr) (outIds : List VmReg) : ApiCall (List VmReg)
  | readMem (srcAddrs : List VmPtr) (bufsSizes : List VmSize) (outBufs : List Bytes) :
    ApiCall (List Bytes)
  | writeMem (dstAddrs : List VmPtr) (bufsSizes : List VmSize) (inBufs : List Bytes) : ApiCall Unit
  | getSymbolsByAddr (addr : VmPtr) (size : VmSize) : ApiCall (List SymbolInfos)
  | getSymbolsByIds (ids : List VmSym) (outInfos : List SymbolInfos) : ApiCall (List SymbolInfos)
  | getSymbolsByNames (names : List CStr) (outInfos : List SymbolInfos) :
    ApiCall (List SymbolInfos)
  | getCodeText (addr : VmPtr) (nins : VmSize) : ApiCall (List Bytes × List VmSize)
  | addBreakpoints (addrs : List VmPtr) : ApiCall Unit
  | delBreakpoints (addrs : List VmPtr) : ApiCall Unit
  | resume (type : ResumeType) : ApiCall Unit
  | getter {α : Type} (f : DBClient → α) : ApiCall α

namespace ApiCall

def exec {σ : Type} (impl : DBClientImpl σ) : {α : Type} → ApiCall α → ClientM σ α
  | _, connect => DBClient.connect impl
  | _, stop => DBClient.stop impl
  | _, checkStopped => DBClient.checkStopped impl
  | _, getRegs ids outBufs regsSize => DBClient.getRegs impl ids outBufs regsSize
  | _, setRegs ids inBufs regsSize => DBClient.setRegs impl ids inBufs regsSize
  | _, getRegsInfos ids outInfos => DBClient.getRegsInfos impl ids outInfos
  | _, findRegsIds regNames outIds => DBClient.findRegsIds impl regNames outIds
  | _, readMem srcAddrs bufsSizes outBufs => DBClient.readMem impl srcAddrs bufsSizes outBufs
  | _, writeMem dstAddrs bufsSizes inBufs => DBClient.writeMem impl dstAddrs bufsSizes inBufs
  | _, getSymbolsByAddr addr size => DBClient.getSymbolsByAddr impl addr size
  | _, getSymbolsByIds ids outInfos => DBClient.getSymbolsByIds impl ids outInfos
  | _, getSymbolsByNames names outInfos => DBClient.getSymbolsByNames impl names outInfos
  | _, getCodeText addr nins => DBClient.getCodeText impl addr nins
  | _, addBreakpoints addrs => DBClient.addBreakpoints impl addrs
  | _, delBreakpoints addrs => DBClient.delBreakpoints impl addrs
  | _, resume type => DBClient.resume impl type
  | _, getter f => DBClient.getter f

/-- The calls of the implementation that it makes. -/
def types : {α : Type} → ApiCall α → List ReqType
  | _, connect => [.connect]
  | _, stop => [.stop, .checkStopped]
  | _, checkStopped => [.checkStopped]
  | _, getRegs _ _ _ => [.getRegsInfos, .getRegsVar]
  | _, setRegs _ _ _ => [.getRegsInfos, .setRegsVar]
  | _, getRegsInfos _ _ => [.getRegsInfos]
  | _, findRegsIds _ _ => [.findRegsIds, .getRegsInfos]
  | _, readMem _ _ _ => [.readMemVar]
  | _, writeMem _ _ _ => [.writeMemVar]
  | _, getSymbolsByAddr _ _ => [.getSymsByAddr]
  | _, getSymbolsByIds _ _ => [.getSymsByIds]
  | _, getSymbolsByNames _ _ => [.getSymsByNames]
  | _, getCodeText _ _ => [.getCodeText]
  | _, addBreakpoints _ => [.addBkps]
  | _, delBreakpoints _ => [.delBkps]
  | _, resume _ => [.resume]
  | _, getter _ => []

/-- The calls that do not change the state of the client. -/
def Quiet : {α : Type} → ApiCall α → Prop
  | _, connect | _, stop | _, checkStopped | _, resume _ => False
  | _, _ => True

end ApiCall

section Moves

variable {σ α : Type}

/-- A step of the implementation, or of the cache. -/
def CacheStep (R : σ → σ → Prop) (w w' : World σ) : Prop :=
  w'.client.state = w.client.state ∧ w'.client.udp = w.client.udp ∧
    (w'.impl = w.impl ∨ R w.impl w'.impl)

/-- `c` changes only the cache, and the implementation by steps of `R`. -/
abbrev CacheMoves (R : σ → σ → Prop) (F : Fault → Prop) (c : ClientM σ α) : Prop :=
  Moves (CacheStep R) F c

variable {impl : DBClientImpl σ} {R : σ → σ → Prop} {F : Fault → Prop}

theorem moves_call {k : ImplCall α} (hk : Moves R F (impl k)) : CacheMoves R F (call impl k) :=
  .zoom hk (fun _ _ _ h => ⟨rfl, rfl, .inr h⟩) fun _ => rfl

theorem moves_modify {f : DBClient → DBClient}
    (hf : ∀ c, (f c).state = c.state ∧ (f c).udp = c.udp) : CacheMoves R F (modifyClient f) :=
  .of_step fun w => ⟨(hf w.client).1, (hf w.client).2, .inl rfl⟩

theorem moves_pure (a : α) : CacheMoves R F (pure a) := .of_keeps (.ret a)

theorem moves_lift (r : Except Fault α) : CacheMoves R F (Prog.lift r) := .of_keeps (.lift r)

theorem moves_get : CacheMoves R F (get : ClientM σ _) := .of_keeps .get

theorem moves_assertState (state : DBClientState) : CacheMoves R F (assertState state) :=
  .bind moves_get fun _ => moves_lift _

theorem moves_findReg (idx : VmReg) : CacheMoves R F (findReg idx) := by
  refine .bind moves_get fun w => ?_
  dsimp only
  split
  · exact .of_keeps (.fail _)
  · split
    · exact moves_pure _
    · exact .of_keeps (.fail _)

theorem moves_findRegName (name : Bytes) : CacheMoves R F (findRegName name) := by
  refine .bind moves_get fun w => ?_
  dsimp only
  split
  · exact .of_keeps (.fail _)
  · split
    · exact moves_pure _
    · exact .of_keeps (.fail _)

theorem addRegs_keeps (c : DBClient) (infos : List RegInfos) :
    (c.addRegs infos).state = c.state ∧ (c.addRegs infos).udp = c.udp := by
  induction infos generalizing c with
  | nil => exact ⟨rfl, rfl⟩
  | cons inf infos ih => exact ih (c.addReg inf)

theorem moves_setVal (pos : Nat) (val : Bytes) :
    CacheMoves R F (modifyClient (·.setVal pos val)) := moves_modify fun _ => ⟨rfl, rfl⟩

theorem moves_forward {k : ImplCall α} (hk : Moves R F (impl k)) :
    CacheMoves R F (forward impl k) :=
  .bind (moves_assertState _) fun _ => moves_call hk

theorem moves_getter (f : DBClient → α) : CacheMoves R F (getter f : ClientM σ α) :=
  .bind (moves_assertState _) fun _ => .bind moves_get fun _ => moves_pure _

section Regs

variable (hinfos : ∀ ids out, Moves R F (impl (.getRegsInfos ids out)))
include hinfos

theorem moves_fetchRegInfosById (idxs : List VmReg) :
    CacheMoves R F (fetchRegInfosById impl idxs) :=
  .bind moves_get fun _ => .ite (moves_pure _) (.bind (moves_call (hinfos _ _)) fun _ =>
    moves_modify fun c => addRegs_keeps c _)

theorem moves_fetchRegInfosByName (hfind : ∀ names out, Moves R F (impl (.findRegsIds names out)))
    (names : List CStr) : CacheMoves R F (fetchRegInfosByName impl names) :=
  .bind moves_get fun _ => .ite (moves_pure _) (.bind (moves_call (hfind _ _)) fun _ =>
    moves_fetchRegInfosById hinfos _)

theorem moves_fetchRegValsById (hget : ∀ ids out sizes, Moves R F (impl (.getRegs ids out sizes)))
    (idxs : List VmReg) : CacheMoves R F (fetchRegValsById impl idxs) := by
  have hmiss : CacheMoves R F (missingVals idxs : ClientM σ _) :=
    .bind (.mapM _ fun _ => moves_findReg _) fun _ => moves_pure _
  refine .bind (moves_fetchRegInfosById hinfos _) fun _ => .bind hmiss fun miss =>
    .ite (moves_pure _) (.bind (moves_lift _) fun _ => .bind (moves_lift _) fun _ => ?_)
  exact .bind (moves_call (hget _ _ _)) fun _ => .forM _ fun p =>
    .bind (moves_findReg _) fun _ => moves_setVal _ _

theorem moves_getRegs (hget : ∀ ids out sizes, Moves R F (impl (.getRegs ids out sizes)))
    (ids : List VmReg) (outBufs : List Bytes) (regsSize : List VmSize) :
    CacheMoves R F (getRegs impl ids outBufs regsSize) := by
  refine .bind (moves_assertState _) fun _ => .bind (moves_fetchRegValsById hinfos hget _) fun _ =>
    .bind (.mapM _ fun p => ?_) fun _ => moves_pure _
  exact .bind (moves_lift _) fun _ => .bind (moves_findReg _) fun _ =>
    .bind (moves_lift _) fun _ => moves_lift _

theorem moves_setRegs (hset : ∀ ids bufs sizes, Moves R F (impl (.setRegs ids bufs sizes)))
    (ids : List VmReg) (inBufs : List Bytes) (regsSize : List VmSize) :
    CacheMoves R F (setRegs impl ids inBufs regsSize) := by
  refine .bind (moves_assertState _) fun _ => .bind (moves_fetchRegInfosById hinfos _) fun _ =>
    .bind (moves_call (hset _ _ _)) fun _ => .forM _ fun p => ?_
  exact .bind (moves_lift _) fun _ => .bind (moves_findReg _) fun _ =>
    .bind (moves_lift _) fun _ => .bind (moves_lift _) fun _ => .bind (moves_lift _) fun _ =>
    .bind (moves_lift _) fun _ => moves_setVal _ _

theorem moves_getRegsInfos (ids : List VmReg) (outInfos : List RegInfos) :
    CacheMoves R F (getRegsInfos impl ids outInfos) :=
  .bind (moves_assertState _) fun _ => .bind (moves_fetchRegInfosById hinfos _) fun _ =>
    .bind (moves_lift _) fun _ => .bind (.mapM _ fun _ => .bind (moves_findReg _) fun _ =>
    moves_pure _) fun _ => moves_pure _

theorem moves_findRegsIds (hfind : ∀ names out, Moves R F (impl (.findRegsIds names out)))
    (regNames : List CStr) (outIds : List VmReg) :
    CacheMoves R F (findRegsIds impl regNames outIds) :=
  .bind (moves_assertState _) fun _ => .bind (moves_fetchRegInfosByName hinfos hfind _) fun _ =>
    .bind (moves_lift _) fun _ => .bind (.mapM _ fun _ => .bind (moves_findRegName _) fun _ =>
    moves_pure _) fun _ => moves_pure _

end Regs

/-- A call that does not change the state of the client does what its calls of the implementation
do. -/
theorem ApiCall.moves {k : ApiCall α} (hk : k.Quiet)
    (h : ∀ (β : Type) (i : ImplCall β), i.type ∈ k.types → Moves R F (impl i)) :
    CacheMoves R F (k.exec impl) := by
  have hi {β : Type} (i : ImplCall β) (hi : i.type ∈ k.types) : Moves R F (impl i) := h β i hi
  cases k with
  | connect | stop | checkStopped | resume => cases hk
  | getRegs =>
    exact moves_getRegs (fun _ _ => hi _ (.head _)) (fun _ _ _ => hi _ (.tail _ (.head _))) _ _ _
  | setRegs =>
    exact moves_setRegs (fun _ _ => hi _ (.head _)) (fun _ _ _ => hi _ (.tail _ (.head _))) _ _ _
  | getRegsInfos => exact moves_getRegsInfos (fun _ _ => hi _ (.head _)) _ _
  | findRegsIds =>
    exact moves_findRegsIds (fun _ _ => hi _ (.tail _ (.head _))) (fun _ _ => hi _ (.head _)) _ _
  | readMem | writeMem | getSymbolsByAddr | getSymbolsByIds | getSymbolsByNames | getCodeText
    | addBreakpoints | delBreakpoints => exact moves_forward (hi _ (.head _))
  | getter => exact moves_getter _

end Moves

end DBClient

end Odb
