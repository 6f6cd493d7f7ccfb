import Odb.Client.Refinement

/-!
# Requests that their count cuts

The counts of a request have 16 bits, those of a call 64.

* `Req.cut`: the request without what its count does not reach.
* `Req.prepare_cut`: sent or received by the client, the two are the same bytes.
* `DataClient.sendReq_cut`: sending one is sending the other.
-/

namespace Odb

open Prog Serial Wire DataClientHandler

/-! ## What the count reaches -/

section Cut

variable {K I : Type}

def ReqFixed.cut (r : ReqFixed K) : ReqFixed K :=
  { r with ids := r.ids.take r.n.toNat, bufs := r.bufs.take r.n.toNat }

def ReqVar.cut (r : ReqVar K) : ReqVar K :=
  { r with ids := r.ids.take r.n.toNat, sizes := r.sizes.take r.n.toNat,
           bufs := r.bufs.take r.n.toNat }

def ReqByIds.cut (r : ReqByIds K I) : ReqByIds K I :=
  { r with ids := r.ids.take r.n.toNat, outs := r.outs.take r.n.toNat }

def ReqByNames.cut (r : ReqByNames I) : ReqByNames I :=
  { r with names := r.names.take r.n.toNat, outs := r.outs.take r.n.toNat }

def ReqBkps.cut (r : ReqBkps) : ReqBkps := { r with inAddrs := r.inAddrs.take r.size.toNat }

/-- The request with the first `n` items of its arrays, where `n` is its count. -/
def Req.cut : {ty : ReqType} → Req ty → Req ty
  | .getRegs, r | .setRegs, r => ReqFixed.cut r
  | .getRegsVar, r | .setRegsVar, r => ReqVar.cut r
  | .readMem, r | .writeMem, r => ReqFixed.cut r
  | .readMemVar, r | .writeMemVar, r => ReqVar.cut r
  | .getRegsInfos, r => ReqByIds.cut r
  | .getSymsByIds, r => ReqByIds.cut r
  | .findRegsIds, r => ReqByNames.cut r
  | .getSymsByNames, r => ReqByNames.cut r
  | .addBkps, r | .delBkps, r => ReqBkps.cut r
  | .connect, r | .stop, r | .checkStopped, r | .getSymsByAddr, r | .getCodeText, r | .resume, r
  | .err, r => r

end Cut

section Items

variable {T : Type}

theorem itemsAt_take (ptr : List T) (n : Nat) : itemsAt (ptr.take n) n = itemsAt ptr n := by
  unfold itemsAt
  rw [List.length_take, List.take_take, Nat.min_self]
  by_cases h : n ≤ ptr.length
  · rw [if_pos (by omega), if_pos h]
  · rw [if_neg (by omega), if_neg h]

theorem length_of_itemsAt {ptr items : List T} {n : Nat} (h : itemsAt ptr n = .ok items) :
    items.length = n := by
  unfold itemsAt at h
  split at h
  · obtain rfl := Except.ok.inj h
    rw [List.length_take_of_le ‹_›]
  · cases h

variable [Serial T]

theorem writeBuf_take (ptr : List T) (n : Nat) : writeBuf (ptr.take n) n = writeBuf ptr n := by
  rw [writeBuf, itemsAt_take, writeBuf]

theorem writeBuf2d_take (ptr : List (List T)) (sizes : List Nat) :
    writeBuf2d (ptr.take sizes.length) sizes = writeBuf2d ptr sizes := by
  rw [writeBuf2d, itemsAt_take, writeBuf2d]

/-- Items read over the first ones of an array. -/
theorem read_take {α : Type} (ptr : List α) (n : Nat) (c : List α → BuffM (List α))
    (hlen : ∀ items : List α, items.length = n → ∀ s ys s', (c items).on s = (.ok ys, s') →
      ys.length = n) :
    (do let items ← c (← Prog.lift (itemsAt (ptr.take n) n)); return items ++ (ptr.take n).drop n) =
      List.take n <$> (do let items ← c (← Prog.lift (itemsAt ptr n))
                          return items ++ ptr.drop n : BuffM (List α)) := by
  apply Prog.ext
  intro s
  rw [itemsAt_take, on_map]
  rcases hitems : itemsAt ptr n with _ | items
  · rfl
  simp only [lift_ok, pure_bind]
  rcases hrun : (c items).on s with ⟨_ | ys, s'⟩
  · rw [on_bind_error hrun, on_bind_error hrun]
    rfl
  · have hys := hlen items (length_of_itemsAt hitems) s ys s' hrun
    rw [on_bind_ok hrun, on_bind_ok hrun, List.drop_eq_nil_of_le (by simp), List.append_nil]
    simp [Except.map, ← hys]

theorem length_of_mapM {α β : Type} {f : α → BuffM β} {xs : List α} {s : Bytes} {ys : List β}
    {s' : Bytes} (h : (xs.mapM f).on s = (.ok ys, s')) : ys.length = xs.length :=
  VMSide.mapM_length (congrArg Prod.fst h)

theorem readBuf_take (ptr : List T) (n : Nat) :
    readBuf (ptr.take n) n = List.take n <$> readBuf ptr n :=
  read_take ptr n (fun items => items.mapM unserialize) fun _ hlen _ _ _ h =>
    (length_of_mapM h).trans hlen

theorem readBuf2d_take (ptr : List (List T)) (sizes : List Nat) :
    readBuf2d (ptr.take sizes.length) sizes = List.take sizes.length <$> readBuf2d ptr sizes := by
  refine read_take ptr sizes.length _ ?_
  intro items hlen s ys s' h
  rw [length_of_mapM h, List.length_zip, hlen, Nat.min_self]

end Items

section Handlers

variable {T : Type} [Serial T] {m : Mode} {α : Type}

/-- Only the server that receives gets another object than it was given. -/
theorem objectIn_bind (hm : m ≠ .servRecv) (x : T) {f g : T → BuffM α} (h : f x = g x) :
    objectIn m x >>= f = objectIn m x >>= g := by
  cases m <;> simp_all [objectIn]

theorem bufferIn_take (hm : m ≠ .servRecv) (ptr : List T) (size : VmSize) :
    bufferIn m (ptr.take size.toNat) size = List.take size.toNat <$> bufferIn m ptr size := by
  cases m with
  | servRecv => exact absurd rfl hm
  | cliSend => simp only [bufferIn, writeBuf_take, map_bind, map_pure]
  | cliRecv | servSend => simp only [bufferIn, map_pure]

theorem bufferOut_take (hm : m ≠ .servRecv) (ptr : List T) (size : VmSize) :
    bufferOut m (ptr.take size.toNat) size = List.take size.toNat <$> bufferOut m ptr size := by
  cases m with
  | servRecv => exact absurd rfl hm
  | cliRecv => exact readBuf_take ptr size.toNat
  | servSend => simp only [bufferOut, writeBuf_take, map_bind, map_pure]
  | cliSend => simp only [bufferOut, map_pure]

theorem bufferRowsIn_take (hm : m ≠ .servRecv) (ptr : List (List T)) (total : VmSize) {n : Nat}
    {sizes : Except Fault (List Nat)} (hsizes : ∀ ns, sizes = .ok ns → ns.length = n) :
    bufferRowsIn m (ptr.take n) total sizes = List.take n <$> bufferRowsIn m ptr total sizes := by
  cases m with
  | servRecv => exact absurd rfl hm
  | cliRecv | servSend => simp only [bufferRowsIn, map_pure]
  | cliSend =>
    rcases sizes with _ | ns
    · rfl
    · obtain rfl := hsizes ns rfl
      simp only [bufferRowsIn, lift_ok, pure_bind, writeBuf2d_take, map_bind, map_pure]

theorem bufferRowsOut_take (hm : m ≠ .servRecv) (ptr : List (List T)) (total : VmSize) {n : Nat}
    {sizes : Except Fault (List Nat)} (hsizes : ∀ ns, sizes = .ok ns → ns.length = n) :
    bufferRowsOut m (ptr.take n) total sizes = List.take n <$> bufferRowsOut m ptr total sizes := by
  cases m with
  | servRecv => exact absurd rfl hm
  | cliSend => simp only [bufferRowsOut, map_pure]
  | cliRecv | servSend =>
    rcases sizes with _ | ns
    · rfl
    · obtain rfl := hsizes ns rfl
      simp only [bufferRowsOut, lift_ok, pure_bind, writeBuf2d_take, readBuf2d_take, map_bind,
        map_pure]

theorem buffer2dInCstr_take (hm : m ≠ .servRecv) (ptr : List CStr) (size : VmSize) :
    buffer2dInCstr m (ptr.take size.toNat) size =
      List.take size.toNat <$> buffer2dInCstr m ptr size := by
  cases m with
  | servRecv => exact absurd rfl hm
  | cliSend => simp only [buffer2dInCstr, itemsAt_take, map_bind, map_pure]
  | cliRecv | servSend => simp only [buffer2dInCstr, map_pure]

theorem length_rowSizesVar {size : VmSize} {sizes : List VmSize} {ns : List Nat}
    (h : rowSizesVar size sizes = .ok ns) : ns.length = size.toNat := by
  unfold rowSizesVar at h
  rcases hitems : itemsAt sizes size.toNat with _ | items <;> rw [hitems] at h
  · cases h
  · obtain rfl := Except.ok.inj h
    rw [List.length_map, length_of_itemsAt hitems]

theorem rowSizesVar_take (size : VmSize) (sizes : List VmSize) :
    rowSizesVar size (sizes.take size.toNat) = rowSizesVar size sizes := by
  rw [rowSizesVar, itemsAt_take, rowSizesVar]

theorem totalSize_take (size : VmSize) (sizes : List VmSize) :
    totalSize size (sizes.take size.toNat) = totalSize size sizes := by
  rw [totalSize, List.take_take, Nat.min_self, totalSize]

end Handlers

section Prepare

variable {K I : Type} [Serial K] [Serial I] {m : Mode}

theorem ReqFixed.prepare_cut (hm : m ≠ .servRecv)
    {op : Mode → List Bytes → VmSize → VmSize → BuffM (List Bytes)}
    (hop : ∀ ptr n size, op m (ptr.take n.toNat) n size = List.take n.toNat <$> op m ptr n size)
    (r : ReqFixed K) : r.cut.prepare m op = ReqFixed.cut <$> r.prepare m op := by
  unfold ReqFixed.prepare
  simp only [map_bind, map_pure]
  refine objectIn_bind hm r.n (objectIn_bind hm r.size ?_)
  simp only [ReqFixed.cut, ← toNat_count, bufferIn_take hm, hop, bind_map_left]

theorem ReqVar.prepare_cut (hm : m ≠ .servRecv)
    {op : Mode → List Bytes → VmSize → List VmSize → BuffM (List Bytes)}
    (hop : ∀ ptr n sizes, op m (ptr.take n.toNat) n (sizes.take n.toNat) =
      List.take n.toNat <$> op m ptr n sizes)
    (r : ReqVar K) : r.cut.prepare m op = ReqVar.cut <$> r.prepare m op := by
  unfold ReqVar.prepare
  simp only [map_bind, map_pure]
  refine objectIn_bind hm r.n ?_
  simp only [ReqVar.cut, ← toNat_count, bufferIn_take hm, hop, bind_map_left]

theorem ReqByIds.prepare_cut (hm : m ≠ .servRecv) (r : ReqByIds K I) :
    r.cut.prepare m = ReqByIds.cut <$> r.prepare m := by
  unfold ReqByIds.prepare
  simp only [map_bind, map_pure]
  refine objectIn_bind hm r.n ?_
  simp only [ReqByIds.cut, ← toNat_count, bufferIn_take hm, bufferOut_take hm, bind_map_left]

theorem ReqByNames.prepare_cut (hm : m ≠ .servRecv) (r : ReqByNames I) :
    r.cut.prepare m = ReqByNames.cut <$> r.prepare m := by
  unfold ReqByNames.prepare
  simp only [map_bind, map_pure]
  refine objectIn_bind hm r.n ?_
  simp only [ReqByNames.cut, ← toNat_count, buffer2dInCstr_take hm, bufferOut_take hm,
    bind_map_left]

theorem ReqBkps.prepare_cut (hm : m ≠ .servRecv) (r : ReqBkps) :
    r.cut.prepare m = ReqBkps.cut <$> r.prepare m := by
  unfold ReqBkps.prepare
  simp only [map_bind, map_pure]
  refine objectIn_bind hm r.size ?_
  simp only [ReqBkps.cut, ← toNat_count, bufferIn_take hm, bind_map_left]

end Prepare

section Request

variable {ty : ReqType}

/-- Sent or received, the request and what its count reaches are the same bytes. -/
theorem Req.prepare_cut {m : Mode} (hm : m ≠ .servRecv) (r : Req ty) :
    prepareRequest m r.cut = Req.cut <$> prepareRequest m r := by
  have hfixed (n size : VmSize) (ns : List Nat)
      (h : (.ok (rowSizes n size) : Except Fault (List Nat)) = .ok ns) : ns.length = n.toNat := by
    obtain rfl := Except.ok.inj h
    exact List.length_replicate
  have hin (ptr : List Bytes) (n size : VmSize) :=
    bufferRowsIn_take hm ptr (n * size) (hfixed n size)
  have hout (ptr : List Bytes) (n size : VmSize) :=
    bufferRowsOut_take hm ptr (n * size) (hfixed n size)
  have hinVar (ptr : List Bytes) (n : VmSize) (sizes : List VmSize) :
      buffer2dvarIn m (ptr.take n.toNat) n (sizes.take n.toNat) =
        List.take n.toNat <$> buffer2dvarIn m ptr n sizes := by
    unfold buffer2dvarIn
    rw [rowSizesVar_take, totalSize_take]
    exact bufferRowsIn_take hm ptr _ fun _ h => length_rowSizesVar h
  have houtVar (ptr : List Bytes) (n : VmSize) (sizes : List VmSize) :
      buffer2dvarOut m (ptr.take n.toNat) n (sizes.take n.toNat) =
        List.take n.toNat <$> buffer2dvarOut m ptr n sizes := by
    unfold buffer2dvarOut
    rw [rowSizesVar_take, totalSize_take]
    exact bufferRowsOut_take hm ptr _ fun _ h => length_rowSizesVar h
  cases ty with
  | getRegs | readMem => exact ReqFixed.prepare_cut hm hout r
  | setRegs | writeMem => exact ReqFixed.prepare_cut hm hin r
  | getRegsVar | readMemVar => exact ReqVar.prepare_cut hm houtVar r
  | setRegsVar | writeMemVar => exact ReqVar.prepare_cut hm hinVar r
  | getRegsInfos | getSymsByIds => exact ReqByIds.prepare_cut hm r
  | findRegsIds | getSymsByNames => exact ReqByNames.prepare_cut hm r
  | addBkps | delBkps => exact ReqBkps.prepare_cut hm r
  | connect | stop | checkStopped | getSymsByAddr | getCodeText | resume | err =>
    exact (id_map _).symm
  | other => exact r.elim

theorem DataClient.request_cut (r : Req ty) : DataClient.request r.cut = DataClient.request r := by
  unfold DataClient.request RequestHandler.clientWriteRequest
  rw [Req.prepare_cut (by decide)]
  simp only [← map_bind]
  unfold written
  rw [on_map]
  rcases (Prog.on _ []).1 with _ | _ <;> rfl

theorem DataClient.handleErr_map {α β : Type} (f : α → β) :
    f <$> DataClient.handleErr = DataClient.handleErr := map_bind ..

theorem DataClient.response_cut (r : Req ty) (bytes : Bytes) :
    DataClient.response r.cut bytes = (DataClient.response r bytes).map Req.cut := by
  have hread : DataClient.rh.clientReadResponse r.cut =
      Req.cut <$> DataClient.rh.clientReadResponse r := by
    unfold RequestHandler.clientReadResponse
    rw [Req.prepare_cut (by decide), map_bind]
  unfold DataClient.response readFrom
  refine Eq.trans ?_ (congrArg Prod.fst (on_map Req.cut _ bytes))
  rw [map_bind]
  refine congrArg (fun c : BuffM (Req ty) => (c.on bytes).1) (bind_congr fun resTy => ?_)
  split
  · exact (DataClient.handleErr_map Req.cut).symm
  · rw [hread, map_bind]

variable {σ : Type} (exchange : Bytes → Prog Fault σ Bytes)

theorem DataClient.sendReq_cut (r : Req ty) :
    DataClient.sendReq exchange r.cut = Req.cut <$> DataClient.sendReq exchange r := by
  unfold DataClient.sendReq
  rw [DataClient.request_cut]
  simp only [DataClient.response_cut, map_bind]
  refine bind_congr fun os => bind_congr fun is => ?_
  rcases DataClient.response r is with _ | _ <;> rfl

end Request

end Odb
