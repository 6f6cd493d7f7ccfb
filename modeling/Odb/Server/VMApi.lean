import Odb.Fwd

/-!
# The callbacks of a virtual machine (`server/vm-api.hh`)

A VM is a type of states and its callbacks: each changes the state, and returns or throws a
`VMApi::Error` with a message. Nothing else is assumed of a VM here.
-/

namespace Odb

/-- What the last executed instruction did. -/
inductive UpdateState where
  /-- The last instruction caused an error that stopped the VM. -/
  | error
  /-- The last instruction stopped the VM. -/
  | exit
  /-- The last instruction was a call to a subroutine. -/
  | callSub
  /-- The last instruction was a return from a subroutine. -/
  | retSub
  /-- Nothing special about last instruction. -/
  | ok
deriving DecidableEq, Repr

structure UpdateInfos where
  state : UpdateState
  /-- Address of the next instruction to be executed. -/
  actAddr : VmPtr
deriving DecidableEq, Repr

/-- `n` bytes. -/
abbrev Block (n : Nat) := {b : Bytes // b.length = n}

/-- `n` bytes that are all `b`. -/
def Block.fill (n : Nat) (b : UInt8) : Block n := ⟨List.replicate n b, List.length_replicate⟩

/-- The callbacks of a VM with states `V`. -/
structure VMApi (V : Type) where
  getVmInfos : V → Except Bytes VMInfos × V
  getUpdateInfos : V → Except Bytes UpdateInfos × V
  /-- `get_reg(idx, infos, val_only)`: the new content of `infos`. -/
  getReg (idx : VmReg) (infos : RegInfos) (valOnly : Bool) : V → Except Bytes RegInfos × V
  /-- `set_reg(idx, new_val)`: the buffer at `new_val`, as long as it is. -/
  setReg (idx : VmReg) (newVal : Bytes) : V → Except Bytes Unit × V
  findRegId (name : Bytes) : V → Except Bytes VmReg × V
  readMem (addr : VmPtr) (size : VmSize) : V → Except Bytes (Block size.toNat) × V
  writeMem (addr : VmPtr) (size : VmSize) (buf : Block size.toNat) : V → Except Bytes Unit × V
  getSymbols (addr : VmPtr) (size : VmSize) : V → Except Bytes (List VmSym) × V
  getSymbInfos (idx : VmSym) : V → Except Bytes SymbolInfos × V
  findSymId (name : Bytes) : V → Except Bytes VmSym × V
  /-- `get_code_text(addr, addr_dist)`: the text and `addr_dist`. -/
  getCodeText (addr : VmPtr) : V → Except Bytes (Bytes × VmSize) × V

end Odb
