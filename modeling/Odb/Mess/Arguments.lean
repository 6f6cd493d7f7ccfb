import Odb.Lib.Wire
import Odb.Mess.DBClient
import Odb.Mess.ParseInt

/-!
# The arguments of commands (`mess/simple-cli-client.cc`)

Types, registers and values as a command line has them, and how a value is stored and printed.

* `Floats`: what the commands use of floating-point numbers.
* `rReg`, `rValue`: reading an argument; `resolveRegs`, `resolveVals`: asking for the ids of registers
  and the addresses of symbols.
* `loadVal`, `printVal`: the bytes of a value of a type.
-/

namespace Odb

/-- The floating-point numbers of the machine, and what the standard library does with them. -/
structure Floats where
  /-- The values of a `double`. -/
  Double : Type
  /-- `std::stod(s, &len)`: the number and `len`, or `none` for an exception. -/
  stod : Bytes → Option (Double × Nat)
  /-- The conversion of a `long long`. -/
  ofInt : Int → Double
  /-- The number without its fraction, `none` if it is no number or not finite. -/
  trunc : Double → Option Int
  /-- The bits of the number as a `float`. -/
  float : Double → UInt32
  /-- The bits of the number as a `double`. -/
  double : Double → UInt64
  /-- What a stream prints of a `float` or a `double` with these bits. -/
  showFloat : Nat → Bytes
  showDouble : Nat → Bytes

inductive TypeDesc where
  | u8 | u16 | u32 | u64 | i8 | i16 | i32 | i64 | f32 | f64
deriving DecidableEq, Repr

namespace TypeDesc

/-- `type_strs`, each with its type of `type_vals`. -/
def typeStrs : List (Bytes × TypeDesc) :=
  [(lit "u8", u8), (lit "u16", u16), (lit "u32", u32), (lit "u64", u64), (lit "i8", i8),
    (lit "i16", i16), (lit "i32", i32), (lit "i64", i64), (lit "f32", f32), (lit "f64", f64)]

/-- `type_desc_parse(s)`. -/
def parse (s : Bytes) : Except Fault TypeDesc :=
  match typeStrs.find? (·.1 = s) with
  | some p => .ok p.2
  | none => .error (.vmError (lit "Invalid command syntax: `" ++ s ++ lit "' is not a type"))

/-- `type_desc_size(t)`. -/
def size : TypeDesc → Nat
  | u8 | i8 => 1
  | u16 | i16 => 2
  | i32 | u32 | f32 => 4
  | i64 | u64 | f64 => 8

/-- The integer type is signed. -/
def isSigned : TypeDesc → Bool
  | i8 | i16 | i32 | i64 => true
  | u8 | u16 | u32 | u64 | f32 | f64 => false

def isFloat : TypeDesc → Bool
  | f32 | f64 => true
  | _ => false

/-- The number is one of the integer type. -/
def InRange (ty : TypeDesc) (n : Int) : Prop :=
  if ty.isSigned then -2 ^ (8 * ty.size - 1) ≤ n ∧ n < 2 ^ (8 * ty.size - 1)
  else 0 ≤ n ∧ n < 2 ^ (8 * ty.size)

instance (ty : TypeDesc) (n : Int) : Decidable (ty.InRange n) := by
  unfold InRange
  infer_instance

/-- The bytes of a number of the integer type. -/
def encode (ty : TypeDesc) (n : Int) : Bytes := Wire.leBytes ty.size (n % 2 ^ (8 * ty.size)).toNat

/-- The number of the integer type with these bytes. -/
def decode (ty : TypeDesc) (bytes : Bytes) : Int :=
  let n := Wire.leNat bytes
  if ty.isSigned ∧ 2 ^ (8 * ty.size - 1) ≤ n then n - 2 ^ (8 * ty.size) else n

end TypeDesc

inductive RegVariant where
  /-- A register with `is_resolved`. -/
  | regId (id : VmReg)
  | regName (name : CStr)
deriving DecidableEq

inductive ValueVariant (Double : Type) where
  | ival (n : Int)
  | dval (d : Double)
  | symName (name : CStr)
  | symId (id : VmSym)
deriving DecidableEq

/-- A number in decimal. -/
def dec (n : Nat) : Bytes := (Nat.toDigits 10 n).map fun c => c.toNat.toUInt8

/-- A number in hexadecimal. -/
def hex (n : Nat) : Bytes := (Nat.toDigits 16 n).map fun c => c.toNat.toUInt8

def decInt : Int → Bytes
  | .ofNat n => dec n
  | .negSucc n => 45 :: dec (n + 1)

theorem terminated (s : Bytes) : 0 ∉ s.takeWhile (· ≠ 0) := by
  intro h
  simpa using List.mem_takeWhile_imp h

/-- The string that a pointer to the first of the bytes points to. -/
def cStr (s : Bytes) : CStr := ⟨s.takeWhile (· ≠ 0), terminated s⟩

/-- `c >= '0' && c <= '9'`. -/
def isNum (c : UInt8) : Bool := 48 ≤ c ∧ c ≤ 57

namespace SimpleCLIClient

open DBClient

variable (F : Floats)

/-- `parse_double(str)`. -/
def parseDouble (str : Bytes) : Except Fault F.Double :=
  match F.stod str with
  | some (res, len) =>
    if len = str.length then .ok res
    else .error (.vmError (lit "Cannot parse `" ++ str ++ lit "' as a floating number"))
  | none => .error (.vmError (lit "Cannot parse `" ++ str ++ lit "' as a floating number"))

/-- `print_val(os, buff, ty)`: what it prints. -/
def printVal (buff : Bytes) (ty : TypeDesc) : Except Fault Bytes :=
  let bytes := buff.take ty.size
  if ty.size ≤ buff.length then
    match ty with
    | .f32 => .ok (F.showFloat (Wire.leNat bytes))
    | .f64 => .ok (F.showDouble (Wire.leNat bytes))
    | ty => .ok (decInt (ty.decode bytes))
  else .error .undefined

/-- `load_val(buf, val, ty)`: the bytes it writes. An integer takes the type of the other branch of
the conditional, which is `double`. -/
def loadVal (val : ValueVariant F.Double) (ty : TypeDesc) : Except Fault Bytes := do
  let d ← match val with
    | .ival n => pure (F.ofInt n)
    | .dval d => pure d
    | .symName _ | .symId _ => throw .undefined
  match ty with
  | .f32 => return Wire.leBytes 4 (F.float d).toNat
  | .f64 => return Wire.leBytes 8 (F.double d).toNat
  | ty =>
    match F.trunc d with
    | some n => if ty.InRange n then return ty.encode n else throw .undefined
    | none => throw .undefined

/-- `r_reg(s)`. -/
def rReg (s : Bytes) : Except Fault RegVariant := do
  if s.head? ≠ some 37 then
    throw (.vmError (lit "Syntax error: `" ++ s ++ lit "' is not a register."))
  if s.tail.head?.any isNum then return .regId (UInt32.ofInt (← parseInt s.tail false))
  else return .regName (cStr s.tail)

/-- `r_value(s)`. -/
def rValue (s : Bytes) : Except Fault (ValueVariant F.Double) := do
  if 1 < s.length ∧ s.head? = some 64 then
    if s.tail.head?.any isNum then return .symId (UInt32.ofInt (← parseInt s.tail false))
    else return .symName (cStr s.tail)
  else match parseInt s true with
    | .ok n => return .ival n
    | .error _ => return .dval (← parseDouble F s)

variable {σ : Type} (impl : DBClientImpl σ)

/-- The registers that have a name get the ids, in order; the ids of all of them. -/
def fillIds : List RegVariant → List VmReg → Except Fault (List VmReg)
  | [], _ => return []
  | .regId id :: regs, ids => return id :: (← fillIds regs ids)
  | .regName _ :: regs, id :: ids => return id :: (← fillIds regs ids)
  | .regName _ :: _, [] => throw .undefined

/-- `resolve_regs(db, regs)`, and the ids of the registers after it. -/
def resolveRegs (regs : List RegVariant) : ClientM σ (List VmReg) := do
  let names := regs.filterMap fun | .regName name => some name | .regId _ => none
  let ids ← if names = [] then pure []
    else DBClient.findRegsIds impl names (List.replicate names.length 0)
  Prog.lift (fillIds regs ids)

variable {F}

/-- The values that `pick` picks get the addresses of the symbols, in order. -/
def fillAddrs {K : Type} (pick : ValueVariant F.Double → Option K) :
    List (ValueVariant F.Double) → List SymbolInfos → Except Fault (List (ValueVariant F.Double))
  | [], _ => return []
  | v :: vv, syms =>
    match pick v, syms with
    | none, syms => return v :: (← fillAddrs pick vv syms)
    | some _, sym :: syms => return .ival sym.addr.toInt64.toInt :: (← fillAddrs pick vv syms)
    | some _, [] => throw .undefined

/-- One half of `resolve_vals`: the symbols that `pick` picks. -/
def resolveSyms {K : Type} (pick : ValueVariant F.Double → Option K)
    (getSymbols : List K → List SymbolInfos → ClientM σ (List SymbolInfos))
    (vv : List (ValueVariant F.Double)) : ClientM σ (List (ValueVariant F.Double)) := do
  let keys := vv.filterMap pick
  if keys = [] then return vv
  let syms ← getSymbols keys (List.replicate keys.length Serial.blank)
  Prog.lift (fillAddrs pick vv syms)

/-- `resolve_vals(db, vv)`. -/
def resolveVals (vv : List (ValueVariant F.Double)) : ClientM σ (List (ValueVariant F.Double)) := do
  let vv ← resolveSyms (fun | .symId id => some id | _ => none) (getSymbolsByIds impl) vv
  resolveSyms (fun | .symName name => some name | _ => none) (getSymbolsByNames impl) vv

end SimpleCLIClient

end Odb
