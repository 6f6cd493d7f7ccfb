import Odb.Mess.Serial

/-!
# Messages over TCP (`mess/tcp-transfer.cc`)

A message is sent as its size in four bytes and then its bytes. A call of `send` or `read`
transfers part of what is asked, or fails.

* `readMult_spec`, `writeMult_spec`: the loops make up for every cut.
* `recvDataTcp_frame`, `recvDataTcp_partial`: what is received of a whole and of a partial message.
* `recvAll_sendAll`: a session receives the messages that were sent, in order.
-/

namespace Odb

open Wire

/-! ## The buffer that a message is received into -/

/-- A `SerialInBuff` with its members `_data` and `_pos`. -/
structure InBuff where
  data : Bytes
  pos : Nat

namespace InBuff

/-- The bytes not yet read, which `read` takes (`SerialInBuff.read`). -/
def left (is : InBuff) : Bytes := is.data.drop is.pos

/-- `reset(len)`. -/
def reset (is : InBuff) (len : Nat) : InBuff where
  data := is.data.take len ++ List.replicate (len - is.data.length) 0
  pos := 0

end InBuff

/-! ## The two ends of a connection -/

/-- The end that sends: the bytes it accepted, and how many each of the following calls accepts at
most, none when the call fails. -/
structure Outgoing where
  sent : Bytes
  cuts : Nat → Nat

/-- The end that receives: the bytes that are still to come, and how many each of the following
calls delivers at most, none when the call fails. -/
structure Incoming where
  bytes : Bytes
  cuts : Nat → Nat

/-- `send(fd, in_buf, len, MSG_NOSIGNAL)` for the `len` bytes `buf`: how many it accepts, 0 for a
result that is not positive. -/
def Outgoing.send (fd : Outgoing) (buf : Bytes) : Nat × Outgoing :=
  let n := min (fd.cuts 0) buf.length
  (n, ⟨fd.sent ++ buf.take n, fun i => fd.cuts (i + 1)⟩)

/-- `read(fd, out_buf, len)`: the bytes it delivers, none for a result that is not positive. -/
def Incoming.read (fd : Incoming) (len : Nat) : Bytes × Incoming :=
  let n := min (fd.cuts 0) len
  (fd.bytes.take n, ⟨fd.bytes.drop n, fun i => fd.cuts (i + 1)⟩)

/-- No call fails. -/
def Flows (cuts : Nat → Nat) : Prop := ∀ i, cuts i ≠ 0

theorem Flows.tail {cuts : Nat → Nat} (h : Flows cuts) : Flows fun i => cuts (i + 1) :=
  fun i => h (i + 1)

/-! ## The code -/

/-- `write_mult(in_buf, len, fd)` for the `len` bytes `buf`. -/
def writeMult (buf : Bytes) (fd : Outgoing) : Bool × Outgoing :=
  if buf.length = 0 then (true, fd)
  else if (fd.send buf).1 = 0 then (false, (fd.send buf).2)
  else writeMult (buf.drop (fd.send buf).1) (fd.send buf).2
termination_by buf.length
decreasing_by
  rw [List.length_drop]
  omega

/-- `read_mult(out_buf, len, fd)`: what it returns, and the bytes it wrote at `out_buf`. -/
def readMult (len : Nat) (fd : Incoming) : Bool × Bytes × Incoming :=
  if len = 0 then (true, [], fd)
  else if (fd.read len).1.length = 0 then (false, [], (fd.read len).2)
  else
    let (res, out, fd') := readMult (len - (fd.read len).1.length) (fd.read len).2
    (res, (fd.read len).1 ++ out, fd')
termination_by len

/-- `send_data_tcp(os, fd)`: `msg_size_t` has 32 bits. -/
def sendDataTcp (os : Bytes) (fd : Outgoing) : Bool × Outgoing :=
  let size := os.length % 2 ^ 32
  match writeMult (leBytes 4 size) fd with
  | (true, fd) => writeMult (os.take size) fd
  | (false, fd) => (false, fd)

/-- `recv_data_tcp(is, fd)`. -/
def recvDataTcp (is : InBuff) (fd : Incoming) : Bool × InBuff × Incoming :=
  match readMult 4 fd with
  | (false, _, fd) => (false, is, fd)
  | (true, header, fd) =>
    let is := is.reset (leNat header)
    let (res, out, fd) := readMult (leNat header) fd
    (res, { is with data := out ++ is.data.drop out.length }, fd)

/-- The messages sent one after the other, up to the first call that returns false: how many calls
returned true. -/
def sendAll : List Bytes → Outgoing → Nat × Outgoing
  | [], fd => (0, fd)
  | os :: rest, fd =>
    match sendDataTcp os fd with
    | (true, fd) => ((sendAll rest fd).1 + 1, (sendAll rest fd).2)
    | (false, fd) => (0, fd)

/-- At most `n` messages received one after the other into `is`, up to the first call that returns
false: what `is` holds to read after each call that returned true. -/
def recvAll : Nat → InBuff → Incoming → List Bytes
  | 0, _, _ => []
  | n + 1, is, fd =>
    match recvDataTcp is fd with
    | (true, is, fd) => is.left :: recvAll n is fd
    | (false, _, _) => []

/-! ## The loops -/

/-- A write puts a beginning of the buffer on the wire, all of it when it returns true, and it
returns true when no call fails. -/
theorem writeMult_spec (buf : Bytes) (fd : Outgoing) :
    ∃ part rest, buf = part ++ rest ∧ (writeMult buf fd).2.sent = fd.sent ++ part ∧
      ((writeMult buf fd).1 = true ↔ rest = []) ∧
      (Flows fd.cuts → (writeMult buf fd).1 = true ∧ Flows (writeMult buf fd).2.cuts) := by
  induction buf, fd using writeMult.induct with
  | case1 buf fd h =>
    rw [writeMult, if_pos h]
    obtain rfl := List.length_eq_zero_iff.mp h
    exact ⟨[], [], rfl, (List.append_nil _).symm, by simp, fun hf => ⟨rfl, hf⟩⟩
  | case2 buf fd h hn =>
    rw [writeMult, if_neg h, if_pos hn]
    have hcut : min (fd.cuts 0) buf.length = 0 := hn
    refine ⟨[], buf, rfl, ?_, ?_, fun hf => ?_⟩
    · show fd.sent ++ buf.take (min (fd.cuts 0) buf.length) = _
      rw [hcut, List.take_zero]
    · simpa using fun hnil => h (List.length_eq_zero_iff.mpr hnil)
    · have := hf 0
      omega
  | case3 buf fd h hn ih =>
    rw [writeMult, if_neg h, if_neg hn]
    obtain ⟨part, rest, hbuf, hsent, hres, hflow⟩ := ih
    refine ⟨buf.take (fd.send buf).1 ++ part, rest, ?_, ?_, hres, fun hf => hflow hf.tail⟩
    · rw [List.append_assoc, ← hbuf, List.take_append_drop]
    · rw [hsent, ← List.append_assoc]
      rfl

/-- A read takes bytes off the wire, `len` of them when it returns true; it returns false when a
call fails or the wire ends. -/
theorem readMult_spec (len : Nat) (fd : Incoming) :
    fd.bytes = (readMult len fd).2.1 ++ (readMult len fd).2.2.bytes ∧
      (readMult len fd).2.1.length ≤ len ∧
      ((readMult len fd).1 = true ↔ (readMult len fd).2.1.length = len) ∧
      (Flows fd.cuts → Flows (readMult len fd).2.2.cuts ∧
        (len ≤ fd.bytes.length → (readMult len fd).1 = true)) := by
  induction len, fd using readMult.induct with
  | case1 fd =>
    rw [readMult, if_pos rfl]
    exact ⟨rfl, Nat.le_refl _, by simp, fun hf => ⟨hf, fun _ => rfl⟩⟩
  | case2 len fd h hn =>
    rw [readMult, if_neg h, if_pos hn]
    have hnil : fd.bytes.take (min (fd.cuts 0) len) = [] := List.length_eq_zero_iff.mp hn
    have hcut : min (min (fd.cuts 0) len) fd.bytes.length = 0 := by
      rw [← List.length_take, hnil, List.length_nil]
    refine ⟨?_, Nat.zero_le _, ?_, fun hf => ⟨hf.tail, fun hle => ?_⟩⟩
    · show fd.bytes = fd.bytes.drop (min (fd.cuts 0) len)
      rw [← List.nil_append (fd.bytes.drop _), ← hnil, List.take_append_drop]
    · simpa using fun hz : 0 = len => h hz.symm
    · have := hf 0
      omega
  | case3 len fd h hn res out fd' hrun ih =>
    rw [readMult, if_neg h, if_neg hn]
    obtain ⟨hbytes, hlen, hres, hflow⟩ := ih
    simp only [hrun] at hbytes hlen hres hflow ⊢
    have hchunk : (fd.read len).1.length ≤ len := by
      show (fd.bytes.take (min (fd.cuts 0) len)).length ≤ len
      rw [List.length_take]
      omega
    have hsplit : fd.bytes = (fd.read len).1 ++ (fd.read len).2.bytes :=
      (List.take_append_drop _ _).symm
    have htotal : fd.bytes.length = (fd.read len).1.length + (fd.read len).2.bytes.length := by
      rw [← List.length_append, ← hsplit]
    refine ⟨?_, ?_, ?_, fun hf => ⟨(hflow hf.tail).1, fun hle => (hflow hf.tail).2 (by omega)⟩⟩
    · rw [List.append_assoc, ← hbytes]
      exact hsplit
    · rw [List.length_append]
      omega
    · rw [hres, List.length_append]
      omega

/-- What a read that returns true took off the wire. -/
theorem readMult_true {len : Nat} {fd fd' : Incoming} {out : Bytes}
    (h : readMult len fd = (true, out, fd')) : fd.bytes = out ++ fd'.bytes ∧ out.length = len := by
  obtain ⟨hbytes, -, hres, -⟩ := readMult_spec len fd
  rw [h] at hbytes hres
  exact ⟨hbytes, hres.mp rfl⟩

/-- Where no call fails, a read gets what there is. -/
theorem readMult_flows {len : Nat} {fd : Incoming} (hf : Flows fd.cuts)
    (hle : len ≤ fd.bytes.length) : ∃ out fd', readMult len fd = (true, out, fd') ∧ Flows fd'.cuts := by
  obtain ⟨-, -, -, hflow⟩ := readMult_spec len fd
  rcases h : readMult len fd with ⟨res, out, fd'⟩
  rw [h] at hflow
  obtain ⟨hf', hres⟩ := hflow hf
  obtain rfl : res = true := hres hle
  exact ⟨out, fd', rfl, hf'⟩

/-! ## One message -/

/-- A message on the wire. -/
def frame (m : Bytes) : Bytes := leBytes 4 m.length ++ m

/-- A beginning of a message that is not all of it. -/
def Partial (part : Bytes) : Prop :=
  ∃ m rest, m.length < 2 ^ 32 ∧ frame m = part ++ rest ∧ rest ≠ []

theorem frame_ne_nil (m : Bytes) : frame m ≠ [] := by
  intro h
  have := congrArg List.length h
  rw [frame, List.length_append, length_leBytes, List.length_nil] at this
  omega

theorem partial_nil : Partial [] := ⟨[], frame [], by decide, rfl, frame_ne_nil []⟩

/-- A message sent puts a beginning of its frame on the wire, all of it when the call returns
true. -/
theorem sendDataTcp_spec {os : Bytes} (h : os.length < 2 ^ 32) (fd : Outgoing) :
    ∃ part rest, frame os = part ++ rest ∧ (sendDataTcp os fd).2.sent = fd.sent ++ part ∧
      ((sendDataTcp os fd).1 = true ↔ rest = []) ∧
      (Flows fd.cuts → (sendDataTcp os fd).1 = true ∧ Flows (sendDataTcp os fd).2.cuts) := by
  obtain ⟨part, rest, hhead, hsent, hres, hflow⟩ := writeMult_spec (leBytes 4 os.length) fd
  unfold sendDataTcp frame
  simp only [Nat.mod_eq_of_lt h, List.take_length]
  rcases hw : writeMult (leBytes 4 os.length) fd with ⟨_ | _, fd'⟩ <;> rw [hw] at hsent hres hflow
  · refine ⟨part, rest ++ os, ?_, hsent, ?_, fun hf => absurd (hflow hf).1 (by simp)⟩
    · rw [hhead, List.append_assoc]
    · have : rest ≠ [] := fun hnil => by simpa using hres.mpr hnil
      simp [this]
  · obtain rfl := hres.mp rfl
    rw [List.append_nil] at hhead
    obtain ⟨part', rest', hbody, hsent', hres', hflow'⟩ := writeMult_spec os fd'
    refine ⟨part ++ part', rest', ?_, ?_, hres', fun hf => hflow' (hflow hf).2⟩
    · rw [hhead, List.append_assoc, ← hbody]
    · show (writeMult os fd').2.sent = _
      rw [hsent', hsent, List.append_assoc]

/-- A whole message on the wire is what a call that returns true receives, and it returns true when
no call fails. -/
theorem recvDataTcp_frame {m rest : Bytes} (hm : m.length < 2 ^ 32) (is : InBuff) {fd : Incoming}
    (hfd : fd.bytes = frame m ++ rest) :
    (∀ is' fd', recvDataTcp is fd = (true, is', fd') → is'.left = m ∧ fd'.bytes = rest) ∧
      (Flows fd.cuts → ∃ is' fd', recvDataTcp is fd = (true, is', fd') ∧ Flows fd'.cuts) := by
  have hfd' : fd.bytes = leBytes 4 m.length ++ (m ++ rest) := by
    rw [hfd, frame, List.append_assoc]
  have hnum : leNat (leBytes 4 m.length) = m.length := leNat_leBytes hm
  -- the header that is read is the size of `m`
  have hheader : ∀ header fd₁, readMult 4 fd = (true, header, fd₁) →
      leNat header = m.length ∧ fd₁.bytes = m ++ rest := by
    intro header fd₁ h
    obtain ⟨hbytes, hlen⟩ := readMult_true h
    rw [hfd'] at hbytes
    obtain ⟨rfl, hrest⟩ := List.append_inj hbytes (by rw [length_leBytes, hlen])
    exact ⟨hnum, hrest.symm⟩
  refine ⟨fun is' fd' h => ?_, fun hf => ?_⟩
  · unfold recvDataTcp at h
    split at h
    · cases h
    next header fd₁ h₁ =>
    obtain ⟨hsize, hbytes⟩ := hheader header fd₁ h₁
    rw [hsize] at h
    rcases h₂ : readMult m.length fd₁ with ⟨res, out, fd₂⟩
    rw [h₂] at h
    obtain ⟨rfl, rfl, rfl⟩ : res = true ∧ _ = is' ∧ fd₂ = fd' := by simpa using h
    obtain ⟨hout, hlen⟩ := readMult_true h₂
    rw [hbytes] at hout
    obtain ⟨rfl, rfl⟩ := List.append_inj hout hlen.symm
    refine ⟨?_, rfl⟩
    show m ++ (is.reset m.length).data.drop m.length = m
    have : (is.reset m.length).data.length ≤ m.length := by
      simp [InBuff.reset]
      omega
    rw [List.drop_of_length_le this, List.append_nil]
  · have hlen : 4 ≤ fd.bytes.length := by
      rw [hfd', List.length_append, length_leBytes]
      omega
    obtain ⟨header, fd₁, h₁, hf₁⟩ := readMult_flows hf hlen
    obtain ⟨hsize, hbytes⟩ := hheader header fd₁ h₁
    have hbody : m.length ≤ fd₁.bytes.length := by
      rw [hbytes, List.length_append]
      omega
    obtain ⟨out, fd₂, h₂, hf₂⟩ := readMult_flows hf₁ hbody
    unfold recvDataTcp
    rw [h₁]
    simp only [hsize]
    rw [h₂]
    exact ⟨_, fd₂, rfl, hf₂⟩

/-- Nothing is received of a partial message. -/
theorem recvDataTcp_partial (is : InBuff) {fd : Incoming} (h : Partial fd.bytes) :
    (recvDataTcp is fd).1 = false := by
  obtain ⟨m, rest, hm, hframe, hrest⟩ := h
  have hpos : 0 < rest.length := List.length_pos_iff.mpr hrest
  have htotal := congrArg List.length hframe
  rw [frame, List.length_append, List.length_append, length_leBytes] at htotal
  unfold recvDataTcp
  split
  · rfl
  next header fd₁ h₁ =>
  obtain ⟨hbytes, hlen⟩ := readMult_true h₁
  rw [hbytes, frame, List.append_assoc] at hframe
  obtain ⟨rfl, -⟩ := List.append_inj hframe (by rw [length_leBytes, hlen])
  rw [leNat_leBytes hm]
  rcases h₂ : readMult m.length fd₁ with ⟨_ | _, out, fd₂⟩
  · rfl
  -- a whole body would leave nothing of the message
  obtain ⟨hout, hlen₂⟩ := readMult_true h₂
  rw [hbytes, hout, List.length_append, List.length_append] at htotal
  omega

/-! ## A session -/

/-- What the messages sent put on the wire: as many frames as calls returned true, and a part of the
next one. -/
theorem sendAll_spec {ms : List Bytes} (h : ∀ m ∈ ms, m.length < 2 ^ 32) (fd : Outgoing) :
    ∃ part, (sendAll ms fd).2.sent =
        fd.sent ++ (((ms.take (sendAll ms fd).1).map frame).flatten ++ part) ∧
      Partial part ∧ (Flows fd.cuts → (sendAll ms fd).1 = ms.length) := by
  induction ms generalizing fd with
  | nil => exact ⟨[], by simp [sendAll], partial_nil, fun _ => rfl⟩
  | cons m ms ih =>
    obtain ⟨part, rest, hframe, hsent, hres, hflow⟩ := sendDataTcp_spec (h m (by simp)) fd
    unfold sendAll
    rcases hs : sendDataTcp m fd with ⟨_ | _, fd'⟩ <;> rw [hs] at hsent hres hflow
    · refine ⟨part, by simpa using hsent, ⟨m, rest, h m (by simp), hframe, ?_⟩, fun hf => ?_⟩
      · exact fun hnil => by simpa using hres.mpr hnil
      · simpa using (hflow hf).1
    · obtain ⟨part', hsent', hpart, hflow'⟩ := ih (fun m hm => h m (by simp [hm])) fd'
      obtain rfl := hres.mp rfl
      refine ⟨part', ?_, hpart, fun hf => ?_⟩
      · show (sendAll ms fd').2.sent =
          fd.sent ++ ((((m :: ms).take ((sendAll ms fd').1 + 1)).map frame).flatten ++ part')
        rw [hsent', show fd'.sent = _ from hsent, List.take_succ_cons, List.map_cons,
          List.flatten_cons, hframe, List.append_nil, List.append_assoc, List.append_assoc]
      · show (sendAll ms fd').1 + 1 = _
        rw [hflow' (hflow hf).2, List.length_cons]

/-- What is received of whole messages followed by a part of one. -/
theorem recvAll_spec {ms : List Bytes} (h : ∀ m ∈ ms, m.length < 2 ^ 32) {part : Bytes}
    (hpart : Partial part) (n : Nat) (is : InBuff) {fd : Incoming}
    (hfd : fd.bytes = (ms.map frame).flatten ++ part) :
    recvAll n is fd <+: ms ∧ (Flows fd.cuts → recvAll n is fd = ms.take n) := by
  induction ms generalizing n is fd with
  | nil =>
    rw [List.map_nil, List.flatten_nil, List.nil_append] at hfd
    have hfalse := recvDataTcp_partial is (show Partial fd.bytes from hfd ▸ hpart)
    obtain _ | n := n
    · exact ⟨List.prefix_rfl, fun _ => rfl⟩
    unfold recvAll
    rcases hr : recvDataTcp is fd with ⟨_ | _, is', fd'⟩
    · exact ⟨List.prefix_rfl, fun _ => by simp⟩
    · rw [hr] at hfalse
      cases hfalse
  | cons m ms ih =>
    obtain _ | n := n
    · exact ⟨List.nil_prefix, fun _ => rfl⟩
    rw [List.map_cons, List.flatten_cons, List.append_assoc] at hfd
    obtain ⟨htrue, hflow⟩ := recvDataTcp_frame (h m (by simp)) is hfd
    unfold recvAll
    rcases hr : recvDataTcp is fd with ⟨_ | _, is', fd'⟩
    · refine ⟨List.nil_prefix, fun hf => ?_⟩
      obtain ⟨is', fd', hr', -⟩ := hflow hf
      rw [hr] at hr'
      cases hr'
    · obtain ⟨rfl, hrest⟩ := htrue is' fd' hr
      obtain ⟨hgot, htake⟩ := ih (fun m hm => h m (by simp [hm])) n is' hrest
      refine ⟨(List.prefix_cons_inj _).mpr hgot, fun hf => ?_⟩
      obtain ⟨is'', fd'', hr', hf'⟩ := hflow hf
      rw [hr] at hr'
      cases hr'
      show is'.left :: recvAll n is' fd' = _
      rw [htake hf', List.take_succ_cons]

/-- A session over a connection that cuts the transfers anywhere and fails at any call. Of the
messages sent, `k` calls returned true; what is received are the first of these `k`, in order, and
as many of them as calls are made where no call on the receiving end fails. -/
theorem recvAll_sendAll {ms : List Bytes} (h : ∀ m ∈ ms, m.length < 2 ^ 32)
    (sendCuts recvCuts : Nat → Nat) (is : InBuff) (n : Nat) :
    let k := (sendAll ms ⟨[], sendCuts⟩).1
    let received := recvAll n is ⟨(sendAll ms ⟨[], sendCuts⟩).2.sent, recvCuts⟩
    (Flows sendCuts → k = ms.length) ∧ received <+: ms.take k ∧
      (Flows recvCuts → received = (ms.take k).take n) := by
  intro k received
  obtain ⟨part, hsent, hpart, hflow⟩ := sendAll_spec h ⟨[], sendCuts⟩
  have := recvAll_spec (fun m hm => h m (List.mem_of_mem_take hm)) hpart n is
    (show (⟨(sendAll ms ⟨[], sendCuts⟩).2.sent, recvCuts⟩ : Incoming).bytes = _ from hsent)
  exact ⟨hflow, this⟩

/-- Two messages, the first empty, cut into single bytes. -/
theorem recvAll_sendAll_bytes :
    recvAll 2 ⟨[], 0⟩ ⟨(sendAll [[], [7, 8]] ⟨[], fun _ => 1⟩).2.sent, fun _ => 1⟩ =
      [[], [7, 8]] := by
  have hms : ∀ m ∈ ([[], [7, 8]] : List Bytes), m.length < 2 ^ 32 := by simp
  obtain ⟨hk, -, hr⟩ := recvAll_sendAll hms (fun _ => 1) (fun _ => 1) ⟨[], 0⟩ 2
  rw [hr fun _ => Nat.one_ne_zero, hk fun _ => Nat.one_ne_zero]
  rfl

end Odb
