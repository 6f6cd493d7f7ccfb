import Odb.Fwd
import Odb.Lib.Wire

/-!
# Serialization (`mess/serial.hh`, `mess/request.cc`)

`SerialOutBuff` is the bytes written so far, `SerialInBuff` the bytes not yet read: `_pos` never
passes the size of `_data`, a `std::vector<char>`, so `_pos + len` in `read` does not wrap for any
`len` that the code asks for. The host is little-endian.

`Serial` holds `sb_serialize` and `sb_unserialize` for a type; `LawfulSerial` says that the second
reads back exactly what the first wrote. `RegInfos` has no such instance: its `val` is not sent
(`RegInfos.carries`).
-/

namespace Odb

open Prog Wire

/-- A program on a `SerialOutBuff` or a `SerialInBuff`. -/
abbrev BuffM := Prog Fault Bytes

def SerialOutBuff.write (data : Bytes) : BuffM Unit := put data

def SerialInBuff.read (len : Nat) : BuffM Bytes := take .assertFail len

/-- `sb_serial_raw` of an integer of `n` bytes. -/
def sbSerialRaw (n x : Nat) : BuffM Unit := SerialOutBuff.write (leBytes n x)

/-- `sb_unserial_raw` of an integer of `n` bytes. -/
def sbUnserialRaw (n : Nat) : BuffM Nat := leNat <$> SerialInBuff.read n

theorem carries_raw {n x : Nat} (h : x < 256 ^ n) :
    Carries (sbSerialRaw n x) (sbUnserialRaw n) () x := carries_le Fault.assertFail h

class Serial (T : Type) where
  sizeof : Nat
  /-- The objects of the messages are small. -/
  sizeof_le : sizeof ≤ 256
  /-- The value of `T{}`. -/
  blank : T
  /-- `sb_serialize`. -/
  serialize : T → BuffM Unit
  /-- `sb_unserialize` into an object with the given value. -/
  unserialize : T → BuffM T

/-- Reading gives back what was written, for the values that an object of the source can hold. -/
class LawfulSerial (T : Type) [Serial T] where
  Fits : T → Prop
  carries (x old : T) : Fits x → Carries (Serial.serialize x) (Serial.unserialize old) () x

open Serial

/-! ## Integers and enumerations -/

/-- `RAW_SERIAL` of an integer of `n` bytes. -/
@[reducible]
def rawSerial {T : Type} (n : Nat) (toNat : T → Nat) (ofNat : Nat → T) (hn : n ≤ 256) :
    Serial T where
  sizeof := n
  sizeof_le := hn
  blank := ofNat 0
  serialize x := sbSerialRaw n (toNat x)
  unserialize _ := ofNat <$> sbUnserialRaw n

instance serialUInt8 : Serial UInt8 := rawSerial 1 UInt8.toNat UInt8.ofNat (by decide)
instance serialUInt16 : Serial UInt16 := rawSerial 2 UInt16.toNat UInt16.ofNat (by decide)
instance serialUInt32 : Serial UInt32 := rawSerial 4 UInt32.toNat UInt32.ofNat (by decide)
instance serialUInt64 : Serial UInt64 := rawSerial 8 UInt64.toNat UInt64.ofNat (by decide)

@[reducible]
def rawLawful {T : Type} {n : Nat} {toNat : T → Nat} {ofNat : Nat → T}
    {hn : n ≤ 256} (hlt : ∀ x, toNat x < 256 ^ n) (hof : ∀ x, ofNat (toNat x) = x) :
    @LawfulSerial T (rawSerial n toNat ofNat hn) :=
  @LawfulSerial.mk T (rawSerial n toNat ofNat hn) (fun _ => True) fun x _ _ => by
    have := (carries_raw (hlt x)).map id ofNat
    rwa [id_map, hof] at this

instance lawfulUInt8 : LawfulSerial UInt8 := rawLawful UInt8.toNat_lt fun _ => UInt8.ofNat_toNat
instance lawfulUInt16 : LawfulSerial UInt16 := rawLawful UInt16.toNat_lt fun _ => UInt16.ofNat_toNat
instance lawfulUInt32 : LawfulSerial UInt32 := rawLawful UInt32.toNat_lt fun _ => UInt32.ofNat_toNat
instance lawfulUInt64 : LawfulSerial UInt64 := rawLawful UInt64.toNat_lt fun _ => UInt64.ofNat_toNat

/-- `static_cast<std::int8_t>(e)`, as a byte. -/
def RegKind.toByte : RegKind → UInt8
  | .general => 0
  | .programCounter => 1
  | .stackPointer => 2
  | .basePointer => 3
  | .flags => 4
  | .other c => c.1

/-- `static_cast<RegKind>`. -/
def RegKind.ofByte (c : UInt8) : RegKind :=
  if h : 5 ≤ c then .other ⟨c, h⟩
  else if c = 0 then .general
  else if c = 1 then .programCounter
  else if c = 2 then .stackPointer
  else if c = 3 then .basePointer
  else .flags

/-- `static_cast<std::int8_t>(e)`, as a byte. -/
def StoppedState.toByte : StoppedState → UInt8
  | .ready => 0
  | .exit => 1
  | .error => 2
  | .other c => c.1

/-- `static_cast<StoppedState>`. -/
def StoppedState.ofByte (c : UInt8) : StoppedState :=
  if h : 3 ≤ c then .other ⟨c, h⟩
  else if c = 0 then .ready
  else if c = 1 then .exit
  else .error

/-- `static_cast<std::int8_t>(e)`, as a byte. -/
def ResumeType.toByte : ResumeType → UInt8
  | .toFinish => 0
  | .continue => 1
  | .step => 2
  | .stepOver => 3
  | .stepOut => 4
  | .other c => c.1

/-- `static_cast<ResumeType>`. -/
def ResumeType.ofByte (c : UInt8) : ResumeType :=
  if h : 5 ≤ c then .other ⟨c, h⟩
  else if c = 0 then .toFinish
  else if c = 1 then .continue
  else if c = 2 then .step
  else if c = 3 then .stepOver
  else .stepOut

theorem RegKind.ofByte_toByte (e : RegKind) : ofByte e.toByte = e := by
  cases e with
  | other c => exact dif_pos c.2
  | _ => decide

theorem StoppedState.ofByte_toByte (e : StoppedState) : ofByte e.toByte = e := by
  cases e with
  | other c => exact dif_pos c.2
  | _ => decide

theorem ResumeType.ofByte_toByte (e : ResumeType) : ofByte e.toByte = e := by
  cases e with
  | other c => exact dif_pos c.2
  | _ => decide

/-- An enumeration: one byte (`sizeof` is that of its underlying type, `int`). -/
@[reducible]
def enumSerial {T : Type} (toByte : T → UInt8) (ofByte : UInt8 → T) : Serial T where
  sizeof := 4
  sizeof_le := by decide
  blank := ofByte 0
  serialize e := serialize (toByte e)
  unserialize _ := ofByte <$> unserialize (0 : UInt8)

instance : Serial RegKind := enumSerial RegKind.toByte RegKind.ofByte
instance : Serial StoppedState := enumSerial StoppedState.toByte StoppedState.ofByte
instance : Serial ResumeType := enumSerial ResumeType.toByte ResumeType.ofByte

@[reducible]
def enumLawful {T : Type} {toByte : T → UInt8} {ofByte : UInt8 → T}
    (h : ∀ e, ofByte (toByte e) = e) : @LawfulSerial T (enumSerial toByte ofByte) :=
  @LawfulSerial.mk T (enumSerial toByte ofByte) (fun _ => True) fun e _ _ => by
    have := (LawfulSerial.carries (toByte e) 0 trivial).map id ofByte
    rwa [id_map, h] at this

instance : LawfulSerial RegKind := enumLawful RegKind.ofByte_toByte
instance : LawfulSerial StoppedState := enumLawful StoppedState.ofByte_toByte
instance : LawfulSerial ResumeType := enumLawful ResumeType.ofByte_toByte

/-! ## Strings and vectors -/

theorem resize_ok {T : Type} {maxSize n : Nat} (h : n ≤ maxSize) (xs : List T) (x : T) :
    ∃ ys, resize maxSize xs n x = .ok ys ∧ ys.length = n := by
  refine ⟨_, if_pos h, ?_⟩
  rw [List.length_append, List.length_take, List.length_replicate]
  omega

section Vector

variable {T : Type} [Serial T]

instance serialVector : Serial (List T) where
  sizeof := 24
  sizeof_le := by decide
  blank := []
  serialize v := do
    sbSerialRaw 8 v.length
    v.forM serialize
  unserialize v := do
    let size ← sbUnserialRaw 8
    let v ← Prog.lift (resize (maxBytes / sizeof T) v size blank)
    v.mapM unserialize

instance lawfulVector [LawfulSerial T] : LawfulSerial (List T) where
  Fits v := v.length ≤ maxBytes / sizeof T ∧ ∀ x ∈ v, LawfulSerial.Fits x
  carries v old h := by
    obtain ⟨olds, hok, hlen⟩ := resize_ok h.1 old blank
    have hmax : v.length ≤ maxBytes := Nat.le_trans h.1 (Nat.div_le_self ..)
    have hlt : v.length < 256 ^ 8 := Nat.lt_of_le_of_lt hmax (by decide)
    refine (carries_raw hlt).bind (Carries.read_ok hok ?_)
    exact .each_exact <|
      forall₂_of_length hlen.symm fun x hx y => LawfulSerial.carries x y (h.2 x hx)

end Vector

/-- A `std::string` (no message holds a vector of bytes). -/
instance serialString : Serial Bytes where
  sizeof := 32
  sizeof_le := by decide
  blank := []
  serialize s := do
    sbSerialRaw 8 s.length
    SerialOutBuff.write s
  unserialize s := do
    let size ← sbUnserialRaw 8
    let _ ← Prog.lift (resize maxBytes s size 0)
    SerialInBuff.read size

instance lawfulString : LawfulSerial Bytes where
  Fits s := s.length ≤ maxBytes
  carries s old h := by
    obtain ⟨_, hok, -⟩ := resize_ok h old 0
    have hlt : s.length < 256 ^ 8 := Nat.lt_of_le_of_lt h (by decide)
    exact (carries_raw hlt).bind (Carries.read_ok hok (carries_put_take _ rfl))

/-! ## Structures -/

instance : Serial CallInfos where
  sizeof := 16
  sizeof_le := by decide
  blank := ⟨0, 0⟩
  serialize ci := do
    serialize ci.callerStartAddr
    serialize ci.callAddr
  unserialize ci := do
    let callerStartAddr ← unserialize ci.callerStartAddr
    let callAddr ← unserialize ci.callAddr
    return ⟨callerStartAddr, callAddr⟩

instance : LawfulSerial CallInfos where
  Fits _ := True
  carries ci _ _ :=
    (LawfulSerial.carries ci.callerStartAddr _ trivial).bind <|
    (LawfulSerial.carries ci.callAddr _ trivial).last _

/-- Internal data structure received after each block (`mess/db-client.hh`). -/
structure DBClientUpdate where
  vmState : StoppedState
  stopped : Bool
  /-- Execution point. -/
  addr : VmPtr
  stack : CallStack
deriving DecidableEq, Repr

/-- A `bool` goes as a `std::uint8_t`. -/
instance serialBool : Serial Bool := rawSerial 1 Bool.toNat (· != 0) (by decide)

instance lawfulBool : LawfulSerial Bool :=
  @rawLawful Bool 1 Bool.toNat (· != 0) (by decide) (by decide) (by decide)

instance : Serial DBClientUpdate where
  sizeof := 40
  sizeof_le := by decide
  blank := ⟨.ready, false, 0, []⟩
  serialize udp := do
    serialize udp.vmState
    serialize udp.stopped
    serialize udp.addr
    serialize udp.stack
  unserialize udp := do
    let vmState ← unserialize udp.vmState
    let stopped ← unserialize udp.stopped
    let addr ← unserialize udp.addr
    let stack ← unserialize udp.stack
    return ⟨vmState, stopped, addr, stack⟩

instance : LawfulSerial DBClientUpdate where
  Fits udp := LawfulSerial.Fits udp.stack
  carries udp _ h :=
    (LawfulSerial.carries udp.vmState _ trivial).bind <|
    (LawfulSerial.carries udp.stopped _ trivial).bind <|
    (LawfulSerial.carries udp.addr _ trivial).bind <|
    (LawfulSerial.carries udp.stack _ h).last _

instance : Serial SymbolInfos where
  sizeof := 48
  sizeof_le := by decide
  blank := ⟨0, [], 0⟩
  serialize sym := do
    serialize sym.idx
    serialize sym.name
    serialize sym.addr
  unserialize sym := do
    let idx ← unserialize sym.idx
    let name ← unserialize sym.name
    let addr ← unserialize sym.addr
    return ⟨idx, name, addr⟩

instance : LawfulSerial SymbolInfos where
  Fits sym := LawfulSerial.Fits sym.name
  carries sym _ h :=
    (LawfulSerial.carries sym.idx _ trivial).bind <|
    (LawfulSerial.carries sym.name _ h).bind <|
    (LawfulSerial.carries sym.addr _ trivial).last _

instance : Serial RegInfos where
  sizeof := 80
  sizeof_le := by decide
  blank := ⟨0, [], 0, .general, []⟩
  serialize reg := do
    serialize reg.idx
    serialize reg.name
    serialize reg.size
    serialize reg.kind
  unserialize reg := do
    let idx ← unserialize reg.idx
    let name ← unserialize reg.name
    let size ← unserialize reg.size
    let kind ← unserialize reg.kind
    return { reg with idx, name, size, kind }

/-- `val` is not sent: it stays what it was in the object that is read into. -/
theorem RegInfos.carries (reg old : RegInfos) (h : LawfulSerial.Fits reg.name) :
    Carries (serialize reg) (unserialize old) () { reg with val := old.val } :=
  (LawfulSerial.carries reg.idx _ trivial).bind <|
  (LawfulSerial.carries reg.name _ h).bind <|
  (LawfulSerial.carries reg.size _ trivial).bind <|
  (LawfulSerial.carries reg.kind _ trivial).last _

instance : Serial VMInfos where
  sizeof := 200
  sizeof_le := by decide
  blank := ⟨[], 0, [], [], [], [], [], 0, 0, 0, 0, false⟩
  serialize infos := do
    serialize infos.name
    serialize infos.regsCount
    serialize infos.regsGeneral
    serialize infos.regsProgramCounter
    serialize infos.regsStackPointer
    serialize infos.regsBasePointer
    serialize infos.regsFlags
    serialize infos.memorySize
    serialize infos.symbolsCount
    serialize infos.pointerSize
    serialize infos.integerSize
    serialize infos.useOpcode
  unserialize infos := do
    let name ← unserialize infos.name
    let regsCount ← unserialize infos.regsCount
    let regsGeneral ← unserialize infos.regsGeneral
    let regsProgramCounter ← unserialize infos.regsProgramCounter
    let regsStackPointer ← unserialize infos.regsStackPointer
    let regsBasePointer ← unserialize infos.regsBasePointer
    let regsFlags ← unserialize infos.regsFlags
    let memorySize ← unserialize infos.memorySize
    let symbolsCount ← unserialize infos.symbolsCount
    let pointerSize ← unserialize infos.pointerSize
    let integerSize ← unserialize infos.integerSize
    let useOpcode ← unserialize infos.useOpcode
    return ⟨name, regsCount, regsGeneral, regsProgramCounter, regsStackPointer, regsBasePointer,
      regsFlags, memorySize, symbolsCount, pointerSize, integerSize, useOpcode⟩

instance : LawfulSerial VMInfos where
  Fits infos := LawfulSerial.Fits infos.name ∧ LawfulSerial.Fits infos.regsGeneral ∧
    LawfulSerial.Fits infos.regsProgramCounter ∧ LawfulSerial.Fits infos.regsStackPointer ∧
    LawfulSerial.Fits infos.regsBasePointer ∧ LawfulSerial.Fits infos.regsFlags
  carries infos _ := fun ⟨hname, hgen, hpc, hsp, hbp, hflags⟩ =>
    (LawfulSerial.carries infos.name _ hname).bind <|
    (LawfulSerial.carries infos.regsCount _ trivial).bind <|
    (LawfulSerial.carries infos.regsGeneral _ hgen).bind <|
    (LawfulSerial.carries infos.regsProgramCounter _ hpc).bind <|
    (LawfulSerial.carries infos.regsStackPointer _ hsp).bind <|
    (LawfulSerial.carries infos.regsBasePointer _ hbp).bind <|
    (LawfulSerial.carries infos.regsFlags _ hflags).bind <|
    (LawfulSerial.carries infos.memorySize _ trivial).bind <|
    (LawfulSerial.carries infos.symbolsCount _ trivial).bind <|
    (LawfulSerial.carries infos.pointerSize _ trivial).bind <|
    (LawfulSerial.carries infos.integerSize _ trivial).bind <|
    (LawfulSerial.carries infos.useOpcode _ trivial).last _

end Odb
