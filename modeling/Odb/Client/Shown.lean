import Odb.Client.Transfers

/-!
# What the cache of a client shows

The loops of `DBClient` over its cache, whatever the cache holds: the sizes are those that the cache
shows, whoever they come from.

* `Sized`: the values in the cache have the sizes that it shows.
* `shownSize_addRegs`: what the cache shows after infos came into it.
* `storeVals_shown`, `copyRows_shown`, `cacheSets_shown`: what each loop does.
-/

namespace Odb

open Prog

namespace DBClient

variable {σ : Type} {c : DBClient} {w : World σ}

/-- Every value in the cache is as long as the cache shows. -/
structure Sized (c : DBClient) : Prop where
  byId : c.ById
  vals : ∀ id size, c.shownSize id = some size → c.cached id ≠ [] →
    (c.cached id).length = size.toNat

theorem CacheOf.sized {T : RegTable} {L : VmReg → Prop} {R : VmReg → Bytes → Prop}
    (h : CacheOf T L R c) : c.Sized where
  byId := h.byIdx
  vals id size hsize hne := by
    have hid : id ∈ c.regiIdxMap := (h.byIdx.mem_iff_shown id).mpr (by rw [hsize]; rfl)
    obtain ⟨pos, inf, hpos, hinf, -⟩ := h.byIdx.find hid
    rw [cached_of_pos hpos hinf] at hne ⊢
    rw [shownSize_of_pos hpos hinf] at hsize
    obtain rfl := Option.some.inj hsize
    exact (h.vals pos inf hinf hne).2.1

/-- The register that is found, with its size and its value. -/
theorem Sized.find (h : w.client.Sized) {id : VmReg} {size : VmSize}
    (hsize : w.client.shownSize id = some size) :
    ∃ pos inf, (findReg id : ClientM σ _).on w = (.ok (pos, inf), w) ∧
      w.client.regiIdxMap[id]? = some pos ∧ w.client.regiArr[pos]? = some inf ∧
      inf.size = size ∧ inf.val = w.client.cached id := by
  have hid : id ∈ w.client.regiIdxMap := (h.byId.mem_iff_shown id).mpr (by rw [hsize]; rfl)
  obtain ⟨pos, inf, hrun, hpos, hinf, -⟩ := findReg_on h.byId hid
  rw [shownSize_of_pos hpos hinf] at hsize
  exact ⟨pos, inf, hrun, hpos, hinf, Option.some.inj hsize, (cached_of_pos hpos hinf).symm⟩

theorem ById.not_shown (h : w.client.ById) {id : VmReg} (hid : w.client.shownSize id = none) :
    (findReg id : ClientM σ _).on w = (.error .assertFail, w) := by
  refine findReg_missing fun hmem => ?_
  have := (h.mem_iff_shown id).mp hmem
  rw [hid] at this
  cases this

/-! ## Infos that come into the cache -/

/-- The size of the register in the first of the infos about it. -/
def firstSize (infos : List RegInfos) (id : VmReg) : Option VmSize :=
  (infos.find? (·.idx = id)).map RegInfos.size

theorem ById.shownSize_addReg (h : c.ById) (inf : RegInfos) (id : VmReg) :
    (c.addReg inf).shownSize id =
      (c.shownSize id).or (if inf.idx = id then some inf.size else none) := by
  show ((c.regiIdxMap.insertIfNew inf.idx c.regiArr.length)[id]?.bind
    ((c.regiArr ++ [inf])[·]?)).map RegInfos.size = _
  rw [Std.TreeMap.getElem?_insertIfNew]
  split
  · next hnew =>
    obtain rfl := Std.LawfulEqCmp.eq_of_compare hnew.1
    rw [if_pos rfl, shownSize, Std.TreeMap.getElem?_eq_none hnew.2]
    simp
  · next hold =>
    cases hpos : c.regiIdxMap[id]? with
    | none =>
      have hid : id ∉ c.regiIdxMap := by
        rw [Std.TreeMap.mem_iff_isSome_getElem?, hpos]
        exact Bool.false_ne_true
      have hne : inf.idx ≠ id := by
        rintro rfl
        exact hold ⟨Std.ReflCmp.compare_self, hid⟩
      simp [shownSize, hpos, hne]
    | some pos =>
      obtain ⟨x, hx, -⟩ := h.at_pos hpos
      have hlt := (List.getElem?_eq_some_iff.mp hx).1
      simp [shownSize, hpos, List.getElem?_append_left hlt, hx]

theorem ById.shownSize_addRegs (h : c.ById) (infos : List RegInfos) (id : VmReg) :
    (c.addRegs infos).shownSize id = (c.shownSize id).or (firstSize infos id) := by
  induction infos generalizing c with
  | nil => simp [addRegs, firstSize]
  | cons inf infos ih =>
    rw [show c.addRegs (inf :: infos) = (c.addReg inf).addRegs infos from rfl, ih (h.snoc inf),
      h.shownSize_addReg, Option.or_assoc]
    congr 1
    unfold firstSize
    by_cases hid : inf.idx = id
    · simp [hid]
    · simp [hid]

theorem ById.addRegs (h : c.ById) (infos : List RegInfos) : (c.addRegs infos).ById := by
  induction infos generalizing c with
  | nil => exact h
  | cons inf infos ih => exact ih (h.snoc inf)

/-- Infos without values. -/
theorem Sized.addRegs (h : c.Sized) {infos : List RegInfos} (hvals : ∀ inf ∈ infos, inf.val = []) :
    (c.addRegs infos).Sized where
  byId := h.byId.addRegs infos
  vals id size hsize hne := by
    rw [h.byId.cached_addRegs hvals] at hne ⊢
    rw [h.byId.shownSize_addRegs] at hsize
    cases hold : c.shownSize id with
    | some old =>
      rw [hold] at hsize
      obtain rfl := Option.some.inj hsize
      exact h.vals id old hold hne
    | none =>
      have hid : id ∉ c.regiIdxMap := by
        rw [h.byId.mem_iff_shown, hold]
        exact Bool.false_ne_true
      rw [cached, Std.TreeMap.getElem?_eq_none hid] at hne
      exact absurd rfl hne

/-! ## Values that come into the cache -/

theorem shownSize_setVal (c : DBClient) (pos : Nat) (val : Bytes) :
    (c.setVal pos val).shownSize = c.shownSize := by
  funext id
  show (c.regiIdxMap[id]?.bind ((c.regiArr.modify pos fun inf => { inf with val := val })[·]?)).map
    RegInfos.size = _
  unfold shownSize
  cases c.regiIdxMap[id]? with
  | none => rfl
  | some pos' =>
    simp only [Option.bind_some, List.getElem?_modify]
    cases c.regiArr[pos']? with
    | none => rfl
    | some inf =>
      simp only [Option.map_some]
      split <;> rfl

theorem Sized.setVal (h : c.Sized) {id : VmReg} {pos : Nat} {size : VmSize} {val : Bytes}
    (hpos : c.regiIdxMap[id]? = some pos) (hsize : c.shownSize id = some size)
    (hlen : val.length = size.toNat) : (c.setVal pos val).Sized where
  byId := h.byId.modify pos fun _ => rfl
  vals id' size' hsize' hne := by
    rw [shownSize_setVal] at hsize'
    rw [cached_setVal h.byId hpos] at hne ⊢
    split at hne
    · next hid =>
      subst hid
      rw [if_pos rfl, hlen, Option.some.inj (hsize.symm.trans hsize')]
    · next hid =>
      rw [if_neg hid]
      exact h.vals id' size' hsize' hne

/-- The loop at the end of `_fetch_reg_vals_by_id`, with values of the sizes that the cache shows. -/
theorem storeVals_shown (h : w.client.Sized) {vals : List (VmReg × Bytes)}
    (hvals : ∀ p ∈ vals, ∃ size, w.client.shownSize p.1 = some size ∧ p.2.length = size.toNat) :
    ∃ w', (storeVals vals : ClientM σ Unit).on w = (.ok (), w') ∧ w'.impl = w.impl ∧
      w'.client.Sized ∧ w'.client.shownSize = w.client.shownSize ∧
      w'.client.state = w.client.state ∧
      ∀ id, (∀ size, w.client.shownSize id = some size → size ≠ 0) →
        w.client.cached id ≠ [] ∨ id ∈ vals.map Prod.fst → w'.client.cached id ≠ [] := by
  induction vals generalizing w with
  | nil => exact ⟨w, rfl, rfl, h, rfl, rfl, fun id _ hid => by simpa using hid⟩
  | cons p vals ih =>
    obtain ⟨size, hsize, hlen⟩ := hvals p (by simp)
    obtain ⟨pos, inf, hrun, hpos, -, -, -⟩ := h.find hsize
    have hset : (w.client.setVal pos p.2).Sized := h.setVal hpos hsize hlen
    have hshown := shownSize_setVal w.client pos p.2
    obtain ⟨w', hrun', himpl, hw', hsame, hstate, hcached⟩ :=
      @ih { w with client := w.client.setVal pos p.2 } hset fun q hq => by
        rw [hshown]
        exact hvals q (by simp [hq])
    refine ⟨w', ?_, himpl, hw', hsame.trans hshown, hstate, fun id hnz hid => ?_⟩
    · show ((_ >>= fun _ => storeVals vals : ClientM σ Unit).on w) = _
      rw [bind_assoc, on_bind_ok hrun]
      exact hrun'
    · refine hcached id (by rwa [hshown]) ?_
      rw [cached_setVal h.byId hpos]
      rw [List.map_cons, List.mem_cons] at hid
      split
      · next heq =>
        subst heq
        refine .inl fun hnil => hnz size hsize ?_
        rw [hnil] at hlen
        exact UInt64.toNat_inj.mp hlen.symm
      · next hne => exact hid.imp_right fun h => h.resolve_left hne

/-! ## The loops of `get_regs` and `set_regs` -/

section Loops

variable {t : Transfer}

/-- What a round of `get_regs` asks of the size that the cache shows. -/
def Within (t : Transfer) (p : VmReg × Nat) (shown : VmSize) : Prop :=
  shown ≠ 0 ∧ ∀ size, t.size p.2 = .ok size → size ≤ shown

theorem copyRow_shown (h : w.client.Sized) (ht : t.Declared) {p : VmReg × Nat}
    (hp : p ∈ t.ids.zipIdx) {shown : VmSize} (hshown : w.client.shownSize p.1 = some shown)
    (hval : shown ≠ 0 → w.client.cached p.1 ≠ []) :
    Outcome
      (fun row w' => w' = w ∧ Within t p shown ∧
        ∃ buf, t.bufs[p.2]? = some buf ∧ row.length = buf.length)
      (fun e w' => w' = w ∧ ¬ Caught e ∧ ¬ Within t p shown)
      ((copyRow t.bufs t.regsSize t.ids.length p : ClientM σ Bytes).on w) := by
  obtain ⟨size, buf, hsize, hbuf, hlen⟩ := ht.rows p hp
  obtain ⟨pos, inf, hrun, -, -, -, hcached⟩ := h.find hshown
  have hall : (∀ s, t.size p.2 = .ok s → s ≤ shown) ↔ size ≤ shown := by
    rw [hsize]
    exact ⟨fun h => h size rfl, fun h s hs => Except.ok.inj hs ▸ h⟩
  unfold copyRow Within
  rw [show regSize t.regsSize t.ids.length p.2 = .ok size from hsize, lift_ok, pure_bind,
    on_bind_ok hrun, hall]
  dsimp only
  by_cases hzero : shown = 0
  · have hnil : inf.val = [] := by
      by_contra hne
      have := h.vals p.1 shown hshown (hcached ▸ hne)
      rw [hzero, ← hcached] at this
      exact hne (List.length_eq_zero_iff.mp this)
    rw [assertThat, if_neg (not_not.mpr hnil)]
    exact ⟨rfl, not_false, fun h => h.1 hzero⟩
  have hne : inf.val ≠ [] := hcached ▸ hval hzero
  have hreal : inf.val.length = shown.toNat := hcached ▸ h.vals p.1 shown hshown (hval hzero)
  rw [assertThat_pos hne, lift_ok, pure_bind, at', hbuf, ok_bind, memcpy, hreal]
  by_cases hle : size ≤ shown
  · have hn : size.toNat ≤ shown.toNat := UInt64.le_iff_toNat_le.mp hle
    rw [if_pos ⟨hn, hlen.ge⟩]
    refine ⟨rfl, ⟨hzero, hle⟩, buf, rfl, ?_⟩
    rw [List.length_append, List.length_take, List.length_drop]
    omega
  · rw [if_neg fun h => hle (UInt64.le_iff_toNat_le.mpr h.1)]
    exact ⟨rfl, not_false, fun h => hle h.2⟩

/-- The loop of `get_regs`. -/
theorem copyRows_shown (h : w.client.Sized) (ht : t.Declared)
    (hids : ∀ id ∈ t.ids, ∃ shown, w.client.shownSize id = some shown ∧
      (shown ≠ 0 → w.client.cached id ≠ [])) :
    Outcome
      (fun rows w' => w' = w ∧ rows.map List.length = t.bufs.map List.length ∧
        ∀ p ∈ t.ids.zipIdx, ∀ shown, w.client.shownSize p.1 = some shown → Within t p shown)
      (fun e w' => w' = w ∧ ¬ Caught e ∧
        ¬ ∀ p ∈ t.ids.zipIdx, ∀ shown, w.client.shownSize p.1 = some shown → Within t p shown)
      ((t.ids.zipIdx.mapM (copyRow t.bufs t.regsSize t.ids.length) : ClientM σ _).on w) := by
  have hloop := Spec.mapM (I := (· = w)) (f := @copyRow σ t.bufs t.regsSize t.ids.length)
    (E := fun e w' => w' = w ∧ ¬ Caught e ∧
      ¬ ∀ p ∈ t.ids.zipIdx, ∀ shown, w.client.shownSize p.1 = some shown → Within t p shown)
    (R := fun p row => (∀ shown, w.client.shownSize p.1 = some shown → Within t p shown) ∧
      ∃ buf, t.bufs[p.2]? = some buf ∧ row.length = buf.length) t.ids.zipIdx (fun p hp => ?_) w rfl
  · rcases hrun : (t.ids.zipIdx.mapM (@copyRow σ t.bufs t.regsSize t.ids.length)).on w with
      ⟨e | rows, w'⟩ <;> rw [hrun] at hloop
    · exact hloop
    obtain ⟨rfl, hrows⟩ := hloop
    refine ⟨rfl, ?_, fun p hp => ?_⟩
    · have hcount : rows.length = t.bufs.length := by
        rw [ht.count, ← hrows.length_eq, List.length_zipIdx]
      refine List.ext_getElem (by simp [hcount]) fun i hi hi' => ?_
      rw [List.length_map] at hi hi'
      obtain ⟨-, buf, hbuf, hlen⟩ :=
        (List.forall₂_iff_get.mp hrows).2 i (by simpa [← ht.count] using hi') hi
      simp only [List.get_eq_getElem, List.getElem_zipIdx, Nat.zero_add] at hbuf hlen
      obtain ⟨_, rfl⟩ := List.getElem?_eq_some_iff.mp hbuf
      rw [List.getElem_map, List.getElem_map, hlen]
    · obtain ⟨row, -, hwithin, -⟩ := forall₂_mem_left hrows hp
      exact hwithin
  · intro s hs
    subst s
    obtain ⟨shown, hshown, hval⟩ := hids p.1 (List.fst_mem_of_mem_zipIdx hp)
    have hround := copyRow_shown h ht hp hshown hval
    rcases hrun : (copyRow t.bufs t.regsSize t.ids.length p : ClientM σ Bytes).on w with
      ⟨e | row, w'⟩ <;> rw [hrun] at hround
    · obtain ⟨rfl, hnot, hbad⟩ := hround
      exact ⟨rfl, hnot, fun hall => hbad (hall p hp shown hshown)⟩
    · obtain ⟨rfl, hwithin, hbuf⟩ := hround
      refine ⟨rfl, fun shown' hshown' => ?_, hbuf⟩
      obtain rfl := Option.some.inj (hshown.symm.trans hshown')
      exact hwithin

/-- The loop of `set_regs`: only the sizes that the cache shows pass its assertions. -/
theorem cacheSets_shown (h : w.client.Sized) (ht : t.Declared) {ps : List (VmReg × Nat)}
    (hps : ∀ p ∈ ps, p ∈ t.ids.zipIdx)
    (hfit : ∀ id ∈ t.ids, ∀ shown, w.client.shownSize id = some shown → shown.toNat ≤ maxBytes) :
    Outcome
      (fun _ w' => w'.impl = w.impl ∧ w'.client.Sized ∧
        w'.client.shownSize = w.client.shownSize ∧ w'.client.state = w.client.state ∧
        ∀ p ∈ ps, ∃ shown, w.client.shownSize p.1 = some shown ∧ t.size p.2 = .ok shown)
      (fun e _ => ¬ Caught e ∧
        ¬ ∀ p ∈ ps, ∃ shown, w.client.shownSize p.1 = some shown ∧ t.size p.2 = .ok shown)
      ((ps.forM (cacheSet t.ids.length t.bufs t.regsSize) : ClientM σ Unit).on w) := by
  induction ps generalizing w with
  | nil => exact ⟨rfl, h, rfl, rfl, by simp⟩
  | cons p ps ih =>
    have hp := hps p (by simp)
    obtain ⟨size, buf, hsize, hbuf, hlen⟩ := ht.rows p hp
    have hround {s : VmSize} : t.size p.2 = .ok s ↔ size = s := by
      rw [hsize, Except.ok.injEq]
    rw [List.forall_mem_cons]
    simp only [hround]
    show Outcome _ _ ((_ >>= fun _ => ps.forM _ : ClientM σ Unit).on w)
    unfold cacheSet
    rw [show regSize t.regsSize t.ids.length p.2 = .ok size from hsize, lift_ok, pure_bind]
    cases hshown : w.client.shownSize p.1 with
    | none =>
      rw [bind_assoc, on_bind_error (h.byId.not_shown hshown)]
      exact ⟨not_false, fun h => by simp at h⟩
    | some shown =>
      obtain ⟨pos, inf, hrun, hpos, -, hinf, -⟩ := h.find hshown
      rw [bind_assoc, on_bind_ok hrun]
      dsimp only
      rw [hinf]
      by_cases hown : size = shown
      · subst hown
        have hmax := hfit p.1 (List.fst_mem_of_mem_zipIdx hp) size hshown
        obtain ⟨val, hval, hvlen⟩ := resize_ok hmax inf.val 0
        have hcopy : memcpy val buf size.toNat = .ok (buf.take size.toNat) := by
          rw [memcpy, if_pos ⟨hlen.ge, hvlen.ge⟩, List.drop_of_length_le hvlen.le, List.append_nil]
        have hset : (w.client.setVal pos (buf.take size.toNat)).Sized :=
          h.setVal hpos hshown (by rw [List.length_take, hlen, Nat.min_self])
        have hsame := shownSize_setVal w.client pos (buf.take size.toNat)
        rw [assertThat_pos rfl, lift_ok, pure_bind, at', hbuf, lift_ok, pure_bind, hval, lift_ok,
          pure_bind, hcopy, lift_ok, pure_bind]
        have hrest := @ih { w with client := w.client.setVal pos (buf.take size.toNat) } hset
          (fun q hq => hps q (by simp [hq])) (by rw [hsame]; exact hfit)
        simp only [hsame] at hrest
        show Outcome _ _ ((ps.forM (cacheSet t.ids.length t.bufs t.regsSize)).on
          { w with client := w.client.setVal pos (buf.take size.toNat) })
        rcases hrun' : (ps.forM (cacheSet t.ids.length t.bufs t.regsSize)).on
          { w with client := w.client.setVal pos (buf.take size.toNat) } with ⟨e | u, w'⟩ <;>
          rw [hrun'] at hrest
        · exact ⟨hrest.1, fun h => hrest.2 h.2⟩
        · obtain ⟨himpl, hsized, hshown', hstate, hps'⟩ := hrest
          exact ⟨himpl, hsized, hshown', hstate, ⟨_, rfl, rfl⟩, hps'⟩
      · rw [assertThat, if_neg hown]
        refine ⟨not_false, fun h => ?_⟩
        obtain ⟨⟨s, hs, hsz⟩, -⟩ := h
        exact hown (hsz.trans (Option.some.inj hs).symm)

end Loops

end DBClient

end Odb
