import Odb.Fault

/-!
# The types both sides share (`server/fwd.hh`)

Integers have the width of the source. An enumeration that also comes out of a message can hold any
byte there (`static_cast` from it): the bytes that name no enumerator are `other`.
-/

namespace Odb

/-- Register index. -/
abbrev VmReg := UInt32

/-- Memory address. -/
abbrev VmPtr := UInt64

abbrev VmSize := UInt64

/-- Symbol index. -/
abbrev VmSym := UInt32

/-- `VM_SYM_NULL`. -/
def vmSymNull : VmSym := 0xFFFFFFFF

structure CallInfos where
  /-- Address of the subroutine where the call is made. -/
  callerStartAddr : VmPtr
  /-- Address of the instruction that made the call. -/
  callAddr : VmPtr
deriving DecidableEq, Repr, Inhabited

abbrev CallStack := List CallInfos

inductive RegKind where
  | general
  | programCounter
  | stackPointer
  | basePointer
  | flags
  | other (code : {c : UInt8 // 5 ≤ c})
deriving DecidableEq, Repr

inductive StoppedState where
  /-- Program ready to execute next instruction. -/
  | ready
  /-- Program exited. -/
  | exit
  /-- Program aborted because of an error. -/
  | error
  | other (code : {c : UInt8 // 3 ≤ c})
deriving DecidableEq, Repr

inductive ResumeType where
  /-- Run program until exit or crash, ignoring all breakpoints. -/
  | toFinish
  /-- Run until next breakpoint. -/
  | continue
  /-- Run the next instruction. -/
  | step
  /-- Run next instruction, if it's a call, keep running until returning from the subroutine, or
  stop before on breakpoints. -/
  | stepOver
  /-- Run instructions until returning from current subroutine, or stop before on breakpoints. -/
  | stepOut
  | other (code : {c : UInt8 // 5 ≤ c})
deriving DecidableEq, Repr

structure RegInfos where
  idx : VmReg
  name : Bytes
  size : VmSize
  kind : RegKind
  val : Bytes
deriving DecidableEq, Repr

structure SymbolInfos where
  idx : VmSym
  name : Bytes
  addr : VmPtr
deriving DecidableEq, Repr

structure VMInfos where
  name : Bytes
  /-- Total number of registers. -/
  regsCount : VmReg
  regsGeneral : List VmReg
  regsProgramCounter : List VmReg
  regsStackPointer : List VmReg
  regsBasePointer : List VmReg
  regsFlags : List VmReg
  /-- End of memory address. -/
  memorySize : VmSize
  symbolsCount : VmSym
  pointerSize : VmSize
  integerSize : VmSize
  /-- Set to true if instructions have a binary opcode. -/
  useOpcode : Bool
deriving DecidableEq, Repr

end Odb
