import Mathlib.Data.List.DropRight
import Odb.Fault
import Odb.Lib.Prog
import Odb.Lib.Stoll

/-!
# The programs of the VM `mvm0` (`mvm0/rom.hh`, `mvm0/parser.cc`)

A program is text: one instruction a line, with its operands, and lines `@name` that name the
instruction after them. The assembler reads the lines first, and then the operands, which may be the
names of symbols that are defined further down. `SYM_NONE` is `none`.

* `parseIs_wf`: in a program that is accepted every symbol stands for an instruction or for the end.
-/

namespace Odb

namespace Mvm0

structure Ins where
  /-- The symbol of the instruction. -/
  defSym : Option Nat
  /-- The symbol that is one of the operands. -/
  useSym : Option Nat
  name : Bytes
  args : List Int
deriving DecidableEq, Repr

structure ROM where
  ins : List Ins
  /-- Symbol idx => ins idx. -/
  symDefs : List Nat
  /-- Symbol idx => name. -/
  syms : List Bytes
  /-- Symbol name => idx. -/
  smap : Std.TreeMap Bytes Nat

/-! ## Strings -/

/-- `is_wspace(c)`. -/
def isWspace (c : UInt8) : Bool := c = 32 ∨ c = 9 ∨ c = 10 ∨ c = 13

/-- `str_trim(str)`. -/
def strTrim (str : Bytes) : Bytes := (str.dropWhile isWspace).rdropWhile isWspace

/-- `str_split(str, sep)`, and the lines that `std::getline` reads of a stream: what follows the last
separator is none if it is empty. -/
def strSplit (str : Bytes) (sep : UInt8) : List Bytes :=
  let parts := str.splitOn sep
  if parts.getLast? = some [] then parts.dropLast else parts

/-- `atoi(s)`: undefined for numbers that are no `int`. -/
def atoi (s : Bytes) : Except Fault Int :=
  let (neg, s) := Stoll.takeSign (s.dropWhile Stoll.isSpace)
  let v := Stoll.signed neg (Stoll.value 10 (s.takeWhile (Stoll.isDigit 10)))
  if -2 ^ 31 ≤ v ∧ v < 2 ^ 31 then .ok v else .error .undefined

/-! ## The first pass: lines -/

/-- One line: a symbol, or an instruction with the symbol `sym` of the line before it. The sizes of
`ins` and `syms` are `ins_idx` and `sym_idx`. -/
def readLine : ROM × Bytes → Bytes → ROM × Bytes
  | (res, sym), line =>
    let line := strTrim line
    match line with
    | [] => (res, sym)
    | c :: name =>
      if c = 64 then
        ({ res with
            syms := res.syms ++ [name]
            smap := res.smap.insertIfNew name res.syms.length
            symDefs := res.symDefs ++ [res.ins.length] }, name)
      else
        let defSym := if sym = [] then none else some (res.syms.length - 1)
        ({ res with ins := res.ins ++ [⟨defSym, none, line, []⟩] }, [])

/-! ## The second pass: operands -/

/-- `parse_arg(val, code, ins)`: the operand, and the symbol if it is one. -/
def parseArg (code : ROM) (val : Bytes) : Except Fault (Int × Option Nat) :=
  match val with
  | [] => .error .assertFail
  | c :: rest =>
    if 48 ≤ c ∧ c ≤ 57 then do
      return (← atoi val, none)
    else if c = 114 then do
      return (← atoi rest, none)
    else if val = lit "sp" then .ok (15, none)
    else do
      assertThat (c = 64)
      match code.smap[rest]? with
      | none => .error .assertFail
      | some symIdx =>
        match code.symDefs[symIdx]? with
        | none => .error .undefined
        | some insIdx => return (1024 + insIdx, some symIdx)

/-- One more operand of an instruction. -/
def addArg (code : ROM) (ins : Ins) (val : Bytes) : Except Fault Ins := do
  let (x, sym) ← parseArg code val
  return { ins with args := ins.args ++ [x], useSym := sym.or ins.useSym }

/-- The name and the operands of an instruction, whose name was the whole line. -/
def parseIns (code : ROM) (ins : Ins) : Except Fault Ins :=
  match strSplit ins.name 32 with
  | [] => .error .undefined
  | name :: args => args.foldlM (addArg code) { ins with name := name }

/-- `parse_is(is)`, of a stream with this text. -/
def parseIs (text : Bytes) : Except Fault ROM := do
  let (res, _) := (strSplit text 10).foldl readLine (⟨[], [], [], ∅⟩, [])
  let ins ← res.ins.mapM (parseIns res)
  return { res with ins := ins }

/-! ## What is accepted -/

/-- Every symbol stands for an instruction, or for the end of the program, and a name for a symbol of
this name. -/
structure ROM.WF (rom : ROM) : Prop where
  defs : rom.symDefs.length = rom.syms.length
  addrs : ∀ d ∈ rom.symDefs, d ≤ rom.ins.length
  names : ∀ (name : Bytes) (idx : Nat), rom.smap[name]? = some idx → rom.syms[idx]? = some name

theorem readLine_wf {res : ROM} {sym : Bytes} (h : res.WF) (line : Bytes) :
    (readLine (res, sym) line).1.WF := by
  unfold readLine
  dsimp only
  rcases strTrim line with _ | ⟨c, name⟩
  · exact h
  dsimp only
  split
  · refine ⟨?_, fun d hd => ?_, fun name' idx hidx => ?_⟩
    · rw [List.length_append, List.length_append, h.defs]
      rfl
    · rcases List.mem_append.mp hd with hd | hd
      · exact h.addrs d hd
      · rw [List.mem_singleton.mp hd]
    · rw [Std.TreeMap.getElem?_insertIfNew] at hidx
      split at hidx
      · next hname =>
        obtain rfl := Option.some.inj hidx
        rw [List.getElem?_concat_length, Std.LawfulEqCmp.eq_of_compare hname.1]
      · have hold := h.names name' idx hidx
        obtain ⟨hlt, -⟩ := List.getElem?_eq_some_iff.mp hold
        rwa [List.getElem?_append_left hlt]
  · refine ⟨h.defs, fun d hd => ?_, h.names⟩
    rw [List.length_append]
    exact Nat.le_add_right_of_le (h.addrs d hd)

theorem readLines_wf {res : ROM × Bytes} (h : res.1.WF) (lines : List Bytes) :
    (lines.foldl readLine res).1.WF := by
  induction lines generalizing res with
  | nil => exact h
  | cons line lines ih => exact ih (readLine_wf h line)

/-- A program that is accepted is well formed. -/
theorem parseIs_wf {text : Bytes} {rom : ROM} (h : parseIs text = .ok rom) : rom.WF := by
  have hread : ((strSplit text 10).foldl readLine (⟨[], [], [], ∅⟩, [])).1.WF :=
    readLines_wf ⟨rfl, List.forall_mem_nil _, fun name idx hidx => by simp at hidx⟩ _
  unfold parseIs at h
  generalize (strSplit text 10).foldl readLine (⟨[], [], [], ∅⟩, []) = res at h hread
  obtain ⟨res, sym⟩ := res
  dsimp only at h hread
  rcases hins : res.ins.mapM (parseIns res) with e | ins <;> rw [hins] at h
  · cases h
  · obtain rfl := Except.ok.inj h
    have hlen : ins.length = res.ins.length := (Prog.mapM_eq_ok.mp hins).length_eq.symm
    exact ⟨hread.defs, fun d hd => hlen ▸ hread.addrs d hd, hread.names⟩

end Mvm0

end Odb
