import Odb.Mess.Arguments

/-!
# `SimpleCLIClient` (`mess/simple-cli-client.cc`)

A command is a line of words. It calls the client and gives the text of its results; `exec` turns a
`VMApi::Error` into text as well.
-/

namespace Odb

namespace SimpleCLIClient

open DBClient

variable (F : Floats) {σ : Type} (impl : DBClientImpl σ) (cmd : List Bytes)

/-- The texts after each other. -/
def concat (texts : List Bytes) : Bytes := texts.flatten

/-- Throws a `VMApi::Error`. -/
def fail {α : Type} (msg : Bytes) : ClientM σ α := throw (.vmError msg)

/-- `_cmd[i]`. -/
def arg (i : Nat) : Bytes := cmd[i]?.getD []

/-! ## Registers -/

/-- Buffers for `n` values of `len` bytes. -/
def buffers (n len : Nat) : Except Fault (List Bytes) := do
  let buffer ← resize maxBytes [] (len * n) 0
  return (List.range n).map fun i => (buffer.drop (len * i)).take len

def cmdPreg : ClientM σ Bytes := do
  if cmd.length < 3 then fail (lit "preg: missing arguments")
  let ty ← Prog.lift (TypeDesc.parse (arg cmd 1))
  let regs ← Prog.lift ((cmd.drop 2).mapM rReg)
  let ids ← resolveRegs impl regs
  let bufs ← Prog.lift (buffers ids.length ty.size)
  let bufs ← getRegs impl ids bufs [ty.size.toUInt64, 0]
  Prog.lift (concat <$> ((cmd.drop 2).zip bufs).mapM fun (name, buf) => do
    return name ++ lit ": " ++ (← printVal F buf ty) ++ lit "\n")

/-- The words of a command two by two. -/
def pairs : List Bytes → List (Bytes × Bytes)
  | reg :: val :: rest => (reg, val) :: pairs rest
  | _ => []

def cmdSreg : ClientM σ Bytes := do
  if cmd.length < 4 ∨ cmd.length % 2 ≠ 0 then fail (lit "sreg: missing arguments")
  let ty ← Prog.lift (TypeDesc.parse (arg cmd 1))
  let args ← Prog.lift ((pairs (cmd.drop 2)).mapM fun (reg, val) => do
    return (← rReg reg, ← rValue F val))
  let ids ← resolveRegs impl (args.map Prod.fst)
  let vals ← resolveVals impl (args.map Prod.snd)
  let _ ← Prog.lift (buffers ids.length ty.size)
  let bufs ← Prog.lift (vals.mapM fun val => loadVal F val ty)
  setRegs impl ids bufs [ty.size.toUInt64, 0]
  return []

/-- What is printed for the kind of a register; nothing if it is no enumerator. -/
def kindText : RegKind → Bytes
  | .general => lit "  General purpose register\n"
  | .programCounter => lit "  Program counter\n"
  | .stackPointer => lit "  Stack pointer\n"
  | .basePointer => lit "  Base pointer\n"
  | .flags => lit "  Flags register\n"
  | .other _ => []

def cmdPregi : ClientM σ Bytes := do
  if cmd.length < 2 then fail (lit "pregi: missing arguments")
  let regs ← Prog.lift ((cmd.drop 1).mapM rReg)
  let ids ← resolveRegs impl regs
  let infos ← getRegsInfos impl ids (List.replicate ids.length Serial.blank)
  return concat (infos.map fun inf =>
    lit "Register " ++ inf.name ++ lit " (#" ++ dec inf.idx.toNat ++ lit "):\n" ++ kindText inf.kind ++
      lit "  size: " ++ dec inf.size.toNat ++ lit " bytes\n")

/-! ## Memory -/

/-- The address that a value is; `name` is that of the command, `s` the value as it was written. -/
def address (name s : Bytes) : Option (ValueVariant F.Double) → Except Fault VmPtr
  | some (.ival n) =>
    if n < 0 then .error (.vmError (name ++ lit ": invalid address `" ++ s ++ lit "'"))
    else .ok (UInt64.ofInt n)
  | _ => .error (.vmError (name ++ lit ": invalid address `" ++ s ++ lit "'"))

def cmdPmem : ClientM σ Bytes := do
  if cmd.length ≠ 4 then fail (lit "pmem: missing arguments")
  let ty ← Prog.lift (TypeDesc.parse (arg cmd 1))
  let nbItems := UInt64.ofInt (← Prog.lift (parseInt (arg cmd 3) false))
  let buffSize := nbItems * ty.size.toUInt64
  let buff ← Prog.lift (resize maxBytes [] buffSize.toNat 0)
  -- Read address
  let val ← Prog.lift (rValue F (arg cmd 2))
  let vals ← resolveVals impl [val]
  let addr ← Prog.lift (address F (lit "pmem") (arg cmd 2) vals.head?)
  let bufs ← readMem impl [addr] [buffSize] [buff]
  let buff := bufs.headD []
  Prog.lift (concat <$> (List.range nbItems.toNat).mapM fun i => do
    return (← printVal F (buff.drop (i * ty.size)) ty) ++ lit " ")

def cmdSmem : ClientM σ Bytes := do
  if cmd.length < 4 then fail (lit "smem: missing arguments")
  let ty ← Prog.lift (TypeDesc.parse (arg cmd 1))
  let nbItems := (cmd.length - 3).toUInt64
  let buffSize := nbItems * ty.size.toUInt64
  let _ ← Prog.lift (resize maxBytes ([] : Bytes) buffSize.toNat 0)
  -- Read address and values
  let vals ← Prog.lift ((cmd.drop 2).mapM (rValue F))
  let vals ← resolveVals impl vals
  -- Find address
  let addr ← Prog.lift (address F (lit "smem") (arg cmd 2) vals.head?)
  -- Load values to buffer
  let items ← Prog.lift (vals.tail.mapM fun val => loadVal F val ty)
  writeMem impl [addr] [buffSize] [concat items]
  return []

/-! ## Symbols -/

def cmdPsym : ClientM σ Bytes := do
  if cmd.length ≠ 2 then fail (lit "psym: missing arguments")
  -- Read symbol infos
  let infos ← match ← Prog.lift (rValue F (arg cmd 1)) with
    | .symId id => getSymbolsByIds impl [id] [Serial.blank]
    | .symName name => getSymbolsByNames impl [name] [Serial.blank]
    | _ => fail (lit "psym: argument '" ++ arg cmd 1 ++ lit "' not a symbol")
  let inf := infos.headD Serial.blank
  return lit "Symbol " ++ inf.name ++ lit " (#" ++ dec inf.idx.toNat ++ lit "):\n  address: 0x" ++
    hex inf.addr.toNat ++ lit "\n"

/-! ## Code -/

/-- `l[pos]`: the terminator at the end of the string. -/
def charAt (l : Bytes) (pos : Nat) : Except Fault UInt8 :=
  if pos = l.length then .ok 0 else at' l pos

/-- `l.find(c, pos)`. -/
def find (l : Bytes) (c : UInt8) (pos : Nat) : Option Nat :=
  ((l.drop pos).findIdx? (· = c)).map (· + pos)

/-- `l.substr(pos, n)`. -/
def substr (l : Bytes) (pos n : Nat) : Except Fault Bytes :=
  if pos ≤ l.length then .ok ((l.drop pos).take n) else .error .stdException

/-- `a - b` of two `std::size_t`. -/
def subSize (a b : Nat) : Nat := if b ≤ a then a - b else a + 2 ^ 64 - b

/-- A reference to a symbol: an item of `refs` with that of `ref_pos`. -/
structure Ref where
  id : VmSym
  line : Nat
  begPos : Nat
  endPos : Nat
deriving DecidableEq, Repr

/-- The loop that reads the digits from `pos` on: `id` and `pos` after it. It is given more rounds
than the string has characters. -/
def readId (l : Bytes) : Nat → VmSym → Nat → Except Fault (VmSym × Nat)
  | 0, _, _ => .error .undefined
  | rounds + 1, id, pos => do
    let c ← charAt l pos
    if isNum c then readId l rounds (10 * id + (c - 48).toUInt32) (pos + 1) else return (id, pos)

/-- The loop that finds the references of the line `i` from `pos` on, given as many rounds too. -/
def scanLine (i : Nat) (l : Bytes) : Nat → Nat → Except Fault (List Ref)
  | 0, _ => .error .undefined
  | rounds + 1, pos => do
    if l.length ≤ pos then return []
    match find l 123 pos with
    | none => return []
    | some begPos =>
      let pos := begPos + 1
      if isNum (← charAt l pos) then
        let (id, pos) ← readId l (l.length + 1) 0 pos
        if (← charAt l pos) = 125 then
          return ⟨id, i, begPos, pos + 1⟩ :: (← scanLine i l rounds (pos + 1))
        else scanLine i l rounds pos
      else scanLine i l rounds pos

/-- Find and load references. -/
def scan (rawCode : List Bytes) : Except Fault (List Ref) :=
  List.flatten <$> rawCode.zipIdx.mapM fun (l, i) => scanLine i l (l.length + 1) 0

/-- The loop that prints the references of the line `i`: its text, `off` after it, and the references
that are left. -/
def printRefs (i : Nat) (l : Bytes) :
    List (Ref × SymbolInfos) → Nat → Except Fault (Bytes × Nat × List (Ref × SymbolInfos))
  | [], off => return ([], off, [])
  | (ref, sym) :: refs, off => do
    if ref.line = i then
      let text ← substr l off (subSize ref.begPos off)
      let (rest, off, refs) ← printRefs i l refs ref.endPos
      return (text ++ sym.name ++ rest, off, refs)
    else return ([], off, (ref, sym) :: refs)

/-- The line with the address of a symbol before the line `i` of code, and the symbols that are left. -/
def printDef (codeAddrs : List VmPtr) (i : Nat) (first : Bool) :
    List SymbolInfos → Except Fault (Bytes × List SymbolInfos)
  | [] => return ([], [])
  | sym :: symDefs => do
    let addr ← at' codeAddrs i
    if sym.addr = addr then
      return ((if first then [] else lit "\n") ++ lit "     0x0" ++ hex addr.toNat ++ lit " <" ++
        sym.name ++ lit ">:\n", symDefs)
    else return ([], sym :: symDefs)

/-- Create string code: the lines from the line `i` on. -/
def printLines (actAddr : VmPtr) (codeAddrs : List VmPtr) :
    List Bytes → Nat → List (Ref × SymbolInfos) → List SymbolInfos → Bool → Except Fault Bytes
  | [], _, _, _, _ => return []
  | l :: rawCode, i, refs, symDefs, first => do
    let (label, symDefs) ← printDef codeAddrs i first symDefs
    if l = [] then return label ++ (← printLines actAddr codeAddrs rawCode (i + 1) refs symDefs first)
    let addr ← at' codeAddrs i
    let arrow := if addr = actAddr then lit "  ->  " else lit "      "
    let (text, off, refs) ← printRefs i l refs 0
    let rest ← if off < l.length then substr l off l.length else pure []
    let lines ← printLines actAddr codeAddrs rawCode (i + 1) refs symDefs false
    return label ++ arrow ++ lit "0x" ++ hex addr.toNat ++ lit ":    " ++ text ++ rest ++ lit "\n" ++
      lines

/-- `code_addrs`: where the instructions of these sizes are, from `addr` on. -/
def codeAddrs : VmPtr → List VmSize → List VmPtr
  | _, [] => []
  | addr, size :: sizes => addr :: codeAddrs (addr + size) sizes

/-- `front()` or `back()` of a vector. -/
def item {α : Type} : Option α → Except Fault α
  | some x => .ok x
  | none => .error .undefined

/-- How many lines before and after the current one are asked for. -/
def lineCount : Except Fault VmSize := do
  if cmd.length < 2 then return 3
  return UInt64.ofInt (← parseInt (arg cmd 1) false)

/-- Where the listing starts. -/
def startAddr (actAddr n : VmPtr) : VmPtr := if actAddr < n then 0 else actAddr - n

def cmdCode : ClientM σ Bytes := do
  -- Get raw code
  let actAddr ← getExecutionPoint
  let n ← Prog.lift (lineCount cmd)
  let addr := startAddr actAddr n
  let (rawCode, codeSizes) ← getCodeText impl addr (2 * n + 1)
  let addrs := codeAddrs addr codeSizes
  -- Load symbol definitions
  let front ← Prog.lift (item addrs.head?)
  let back ← Prog.lift (item addrs.getLast?)
  let symDefs ← getSymbolsByAddr impl front (back - front + 1)
  -- Find and load references
  let refs ← Prog.lift (scan rawCode)
  let syms ← getSymbolsByIds impl (refs.map Ref.id) (List.replicate refs.length Serial.blank)
  Prog.lift (printLines actAddr addrs rawCode 0 (refs.zip syms) symDefs true)

/-! ## Breakpoints and execution -/

def cmdB : ClientM σ Bytes := do
  if cmd.length ≠ 2 then fail (lit "b: missing arguments")
  let val ← Prog.lift (rValue F (arg cmd 1))
  let vals ← resolveVals impl [val]
  let addr ← Prog.lift (address F (lit "b") (arg cmd 1) vals.head?)
  addBreakpoints impl [addr]
  return lit "Inserted breakpoint at `0x" ++ hex addr.toNat ++ lit "'\n"

def cmdDelb : ClientM σ Bytes := do
  if cmd.length ≠ 2 then fail (lit "delb: missing arguments")
  let val ← Prog.lift (rValue F (arg cmd 1))
  let vals ← resolveVals impl [val]
  let addr ← Prog.lift (address F (lit "delb") (arg cmd 1) vals.head?)
  delBreakpoints impl [addr]
  return lit "Removed breakpoint at `0x" ++ hex addr.toNat ++ lit "'\n"

def cmdContinue : ClientM σ Bytes := do
  resume impl .continue
  return []

def cmdStep : ClientM σ Bytes := do
  resume impl .step
  return []

def cmdNext : ClientM σ Bytes := do
  resume impl .stepOver
  return []

def cmdFinish : ClientM σ Bytes := do
  resume impl .stepOut
  return []

/-! ## State -/

def cmdState : ClientM σ Bytes := do
  let pos ← getExecutionPoint
  let st ← getStoppedState
  let text := match st with
    | .exit => lit "Program exited normally at "
    | .error => lit "Program stopped from an error at "
    | _ => lit "program stopped at "
  let cs ← getCallStack
  let subAddr := (← Prog.lift (item cs.getLast?)).callerStartAddr
  let syms ← getSymbolsByAddr impl subAddr 1
  let sub := match syms with
    | sym :: _ => lit " (<" ++ sym.name ++ lit "> + 0x" ++ hex (pos - subAddr).toNat ++ lit ")"
    | [] => []
  return text ++ lit "0x" ++ hex pos.toNat ++ sub ++ lit "\n"

/-- A line of `_cmd_bt` for a call that is at `pos`. -/
def printCall (pos begPos : VmPtr) (sym : SymbolInfos) : Bytes :=
  lit "0x" ++ hex pos.toNat ++ lit " (" ++
    (if sym.idx = vmSymNull then lit "0x" ++ hex begPos.toNat else lit "<" ++ sym.name ++ lit ">") ++
    lit " + 0x" ++ hex (pos - begPos).toNat ++ lit ")\n"

def cmdBt : ClientM σ Bytes := do
  let cs ← getCallStack
  let curr ← getExecutionPoint
  -- Read symbols
  let syms ← cs.mapM fun call => do
    match ← getSymbolsByAddr impl call.callerStartAddr 1 with
    | [] => return { (Serial.blank : SymbolInfos) with idx := vmSymNull }
    | sym :: _ => return sym
  let lines := (cs.zip syms).zipIdx.map fun ((call, sym), i) =>
    printCall (if i + 1 = cs.length then curr else call.callAddr) call.callerStartAddr sym
  return concat lines.reverse

def cmdVm : ClientM σ Bytes := do
  let regCount ← getter (·.vmInfos.regsCount)
  let memSize ← getter (·.vmInfos.memorySize)
  let symCount ← getter (·.vmInfos.symbolsCount)
  return lit "VM :\nRegisters: " ++ dec regCount.toNat ++ lit ".\n   Memory: " ++ dec memSize.toNat ++
    lit ".\n  Symbols: " ++ dec symCount.toNat ++ lit ".\n"

/-! ## Commands -/

/-- The words of a line. -/
def words (line : Bytes) : List Bytes := (line.splitOnP Stoll.isSpace).filter (· ≠ [])

/-- The command with the name that is its first word. -/
def dispatch (name : Bytes) : ClientM σ Bytes :=
  if name = lit "preg" then cmdPreg F impl cmd
  else if name = lit "sreg" then cmdSreg F impl cmd
  else if name = lit "pregi" then cmdPregi impl cmd
  else if name = lit "pmem" then cmdPmem F impl cmd
  else if name = lit "smem" then cmdSmem F impl cmd
  else if name = lit "psym" then cmdPsym F impl cmd
  else if name = lit "code" then cmdCode impl cmd
  else if name = lit "b" then cmdB F impl cmd
  else if name = lit "delb" then cmdDelb F impl cmd
  else if name = lit "c" ∨ name = lit "continue" then cmdContinue impl
  else if name = lit "s" ∨ name = lit "step" then cmdStep impl
  else if name = lit "n" ∨ name = lit "next" then cmdNext impl
  else if name = lit "fin" ∨ name = lit "finish" then cmdFinish impl
  else if name = lit "state" then cmdState impl
  else if name = lit "bt" then cmdBt impl
  else if name = lit "vm" then cmdVm
  else fail (lit "Unknown command `" ++ name ++ lit "'")

/-- `exec(cmd)`. -/
def exec (line : Bytes) : ClientM σ Bytes :=
  match words line with
  | [] => return []
  | name :: args => Prog.handle (dispatch F impl (name :: args) name) fun
    | .vmError msg => return lit "Error: " ++ msg
    | e => throw e

end SimpleCLIClient

end Odb
