import Odb.Mess.RequestHandler

/-!
# The calls a client makes (`mess/db-client-impl.hh`)

`DBClientImpl` is an abstract class; an implementation runs its calls. An argument that a call
writes to is given with what it held before, and the call returns what it holds after. Counts are
the lengths of the arrays.
-/

namespace Odb

/-- The member functions of `DBClientImpl`, with their arguments, by what they return. -/
inductive ImplCall : Type → Type where
  | connect (udp : DBClientUpdate) : ImplCall (VMInfos × DBClientUpdate)
  | stop : ImplCall Unit
  | checkStopped (udp : DBClientUpdate) : ImplCall DBClientUpdate
  | getRegs (ids : List VmReg) (outBufs : List Bytes) (regsSize : List VmSize) :
    ImplCall (List Bytes)
  | setRegs (ids : List VmReg) (inBufs : List Bytes) (regsSize : List VmSize) : ImplCall Unit
  | getRegsInfos (ids : List VmReg) (outInfos : List RegInfos) : ImplCall (List RegInfos)
  | findRegsIds (regNames : List CStr) (outIds : List VmReg) : ImplCall (List VmReg)
  | readMem (srcAddrs : List VmPtr) (bufsSizes : List VmSize) (outBufs : List Bytes) :
    ImplCall (List Bytes)
  | writeMem (dstAddrs : List VmPtr) (bufsSizes : List VmSize) (inBufs : List Bytes) :
    ImplCall Unit
  | getSymbolsByIds (ids : List VmSym) (outInfos : List SymbolInfos) : ImplCall (List SymbolInfos)
  | getSymbolsByAddr (addr : VmPtr) (size : VmSize) : ImplCall (List SymbolInfos)
  | getSymbolsByNames (names : List CStr) (outInfos : List SymbolInfos) :
    ImplCall (List SymbolInfos)
  | getCodeText (addr : VmPtr) (nins : VmSize) : ImplCall (List Bytes × List VmSize)
  | addBreakpoints (addrs : List VmPtr) : ImplCall Unit
  | delBreakpoints (addrs : List VmPtr) : ImplCall Unit
  | resume (type : ResumeType) : ImplCall Unit

/-- A `DBClientImpl` that works on a state `σ`. -/
abbrev DBClientImpl (σ : Type) := ⦃α : Type⦄ → ImplCall α → Prog Fault σ α

end Odb
