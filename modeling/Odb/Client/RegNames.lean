import Odb.Client.RegCalls

/-!
# Names of registers

`find_regs_ids` asks the client's cache, then the debugger's, then the VM; both caches have a
register under its own name, and the first one that bears a name keeps it.

* `remembered`: the register that is cached under a name.
* `AnswersName`: where a name is answered as by the VM; `RefusesName`: where the VM rejects a name
  before anything else goes wrong.
* `findRegsIds_answered`: there the call is answered by the VM.
-/

namespace Odb

open Prog

namespace Debugger

variable {V : Type} {api : VMApi V} {T : RegTable} {P : V → Prop} {L : VmReg → Prop}
  {R : VmReg → Bytes → Prop} {db : Debugger V} {name other : Bytes}

/-- What the debugger has under the name is what the VM finds; if it has nothing, the name is the
own one of what the VM finds. -/
structure AnswersName (T : RegTable) (db : Debugger V) (name : Bytes) : Prop where
  cached : ∀ id, db.smapRegs[name]? = some id → T.find name = some id
  own : db.smapRegs[name]? = none → ∀ id d, T.find name = some id → T.info id = some d →
    d.name = name

theorem AnswersName.of_smapRegs {db' : Debugger V} (h : AnswersName T db name)
    (hsame : db'.smapRegs = db.smapRegs) : AnswersName T db' name := by
  constructor <;> rw [hsame]
  · exact h.cached
  · exact h.own

/-- What the VM finds under such a name bears it. -/
theorem AnswersName.name_eq (h : AnswersName T db name) (hdb : RegsOf T P L db) {id : VmReg}
    {d : RegDesc} (hfind : T.find name = some id) (hd : T.info id = some d) : d.name = name := by
  cases hcached : db.smapRegs[name]? with
  | none => exact h.own hcached id d hfind hd
  | some id' =>
    obtain ⟨-, d', hd', hkey⟩ := hdb.names name id' hcached
    obtain rfl := Option.some.inj ((h.cached id' hcached).symm.trans hfind)
    obtain rfl := Option.some.inj (hd'.symm.trans hd)
    exact hkey

variable (hvm : api.HasRegs T P R)
include hvm

/-- Asking for a name that fits keeps the others. -/
theorem AnswersName.findRegId (hdb : RegsOf T P L db) (h : AnswersName T db name)
    (hname : AnswersName T db other) : AnswersName T ((findRegId api other).on db).2 name := by
  rcases findRegId_smapRegs hvm hdb other with hsame | ⟨hnone, id, d, hfind, hd, hins⟩
  · exact h.of_smapRegs hsame
  obtain rfl := hname.own hnone id d hfind hd
  constructor <;> rw [hins, Std.TreeMap.getElem?_insertIfNew] <;> split
  · next heq =>
    obtain rfl := Std.LawfulEqCmp.eq_of_compare heq.1
    intro id' hid
    obtain rfl := Option.some.inj hid
    exact hfind
  · exact h.cached
  · rintro ⟨⟩
  · exact h.own

/-- A name that fits. -/
theorem findRegId_names {names : List CStr} (hmem : ∃ n ∈ names, n.1 = name)
    (hL : ∀ id, T.find name = some id → L id) :
    Yields (fun db => RegsOf T P L db ∧ ∀ n ∈ names, AnswersName T db n.1)
      (fun db => RegsOf T P L db ∧ ∀ n ∈ names, AnswersName T db n.1) Caught
      (∀ id, T.find name = some id → T.Fits id) (T.Finds name) (findRegId api name)
      fun id _ => L id ∧ T.Has id ∧ T.find name = some id := by
  rintro db ⟨h, hnames⟩
  obtain ⟨n, hn, rfl⟩ := hmem
  have hkeep : ∀ n' ∈ names, AnswersName T ((findRegId api n.1).on db).2 n'.1 :=
    fun n' hn' => (hnames n' hn').findRegId hvm h (hnames n hn)
  cases hname : db.smapRegs[n.1]? with
  | some id =>
    obtain ⟨hid, -⟩ := h.names n.1 id hname
    obtain ⟨hLid, hhas⟩ := h.loaded hid
    have hfind := (hnames n hn).cached id hname
    rw [findRegId_cached hname]
    exact ⟨⟨h, hnames⟩, ⟨hLid, hhas, hfind⟩, fun _ => ⟨id, hfind, hhas⟩⟩
  | none =>
    have := findRegId_asked hvm hL db ⟨h, hname⟩
    rcases hrun : (findRegId api n.1).on db with ⟨e | id, db'⟩ <;> rw [hrun] at this hkeep
    · exact ⟨⟨this.1, hkeep⟩, this.2⟩
    · exact ⟨⟨this.1, hkeep⟩, this.2⟩

/-- Asking for a name takes no other one out of the cache. -/
theorem findRegId_grows (hdb : RegsOf T P L db)
    (hnone : ((findRegId api other).on db).2.smapRegs[name]? = none) : db.smapRegs[name]? = none := by
  rcases findRegId_smapRegs hvm hdb other with hsame | ⟨-, id, d, -, -, hins⟩
  · rwa [← hsame]
  · rw [hins] at hnone
    by_contra hsome
    obtain ⟨id', hid'⟩ := Option.ne_none_iff_exists'.mp hsome
    cases (Indexes.insertIfNew_some d.name hid').symm.trans hnone

/-- Only the own name of a register that the VM finds comes into the cache. -/
theorem findRegId_none (hdb : RegsOf T P L db) (hname : db.smapRegs[name]? = none)
    (hother : db.smapRegs[other]? = none → ∀ id d, T.find other = some id → T.info id = some d →
      d.name ≠ name) : ((findRegId api other).on db).2.smapRegs[name]? = none := by
  rcases findRegId_smapRegs hvm hdb other with hsame | ⟨hnone, id, d, hfind, hd, hins⟩
  · rwa [hsame]
  · rw [hins, Std.TreeMap.getElem?_insertIfNew, if_neg]
    · exact hname
    · rintro ⟨hcmp, -⟩
      exact hother hnone id d hfind hd (Std.LawfulEqCmp.eq_of_compare hcmp)

/-- Any name, in the cache or not. -/
theorem findRegId_any (hdb : RegsOf T P L db) (hL : ∀ id, T.find name = some id → L id)
    (hfit : ∀ id, T.find name = some id → T.Fits id) :
    Outcome (fun _ db' => RegsOf T P L db') (fun e db' => RegsOf T P L db' ∧ Caught e)
      ((findRegId api name).on db) := by
  cases hcached : db.smapRegs[name]? with
  | some id =>
    rw [findRegId_cached hcached]
    exact hdb
  | none =>
    exact Spec.conseq (findRegId_asked hvm hL) (fun _ h => h) (fun _ _ h => h.1)
      (fun _ _ h => ⟨h.1, (h.2 hfit).2⟩) db ⟨hdb, hcached⟩

end Debugger

namespace VMSide

open Debugger (RegsOf AnswersName findRegId_any findRegId_asked findRegId_grows findRegId_none)

variable {V : Type} {api : VMApi V} {T : RegTable} {P : V → Prop} {L : VmReg → Prop}
  {R : VmReg → Bytes → Prop} (hvm : api.HasRegs T P R)
include hvm

theorem findRegsIds_names {names : List CStr} {out : List VmReg} (hout : out.length = names.length)
    (hL : ∀ name ∈ names, ∀ id, T.find name.1 = some id → L id) :
    Yields (fun db => RegsOf T P L db ∧ ∀ n ∈ names, AnswersName T db n.1)
      (fun db => RegsOf T P L db ∧ ∀ n ∈ names, AnswersName T db n.1) Caught
      (∀ name ∈ names, ∀ id, T.find name.1 = some id → T.Fits id)
      (∀ name ∈ names, T.Finds name.1) (findRegsIds api names out) fun ids _ =>
        List.Forall₂ (fun name id => L id ∧ T.Has id ∧ T.find name.1 = some id) names ids := by
  unfold findRegsIds
  rw [fill_eq hout]
  refine .mapM names fun name hname => ?_
  exact (Debugger.findRegId_names hvm ⟨name, hname, rfl⟩ (hL name hname)).congr
    (fun hq => hq name hname) fun _ => .rfl

/-- The debugger comes to a name that it does not have and the VM rejects. -/
theorem findRegsIds_refused {pre post : List CStr} {name : CStr} {out : List VmReg}
    (hout : out.length = (pre ++ name :: post).length)
    (hL : ∀ n ∈ pre ++ name :: post, ∀ id, T.find n.1 = some id → L id)
    (hfit : ∀ n ∈ pre, ∀ id, T.find n.1 = some id → T.Fits id) (hno : ¬ T.Finds name.1) :
    Spec (fun db => RegsOf T P L db ∧ db.smapRegs[name.1]? = none ∧
        ∀ n ∈ pre, db.smapRegs[n.1]? = none → ∀ id d, T.find n.1 = some id → T.info id = some d →
          d.name ≠ name.1)
      (findRegsIds api (pre ++ name :: post) out) (fun _ _ => False)
      fun e db => RegsOf T P L db ∧ Caught e := by
  unfold findRegsIds
  rw [fill_eq hout]
  clear hout
  induction pre with
  | nil =>
    rintro db ⟨h, hname, -⟩
    have hfit : ∀ id, T.find name.1 = some id → T.Fits id := fun id hfind d hd =>
      (hno ⟨id, hfind, by simp [RegTable.Has, hd]⟩).elim
    have := findRegId_asked hvm (hL name (by simp)) db ⟨h, hname⟩
    rw [List.nil_append, List.mapM_cons]
    rcases hrun : (Debugger.findRegId api name.1).on db with ⟨e | id, db'⟩ <;> rw [hrun] at this
    · rw [on_bind_error hrun]
      exact ⟨this.1, (this.2 hfit).2⟩
    · exact (hno (this.2.2 hfit)).elim
  | cons n pre ih =>
    rintro db ⟨h, hname, hpre⟩
    have ih := ih (fun n' hn' => hL n' (by simp_all)) fun n' hn' => hfit n' (by simp [hn'])
    have hround := findRegId_any hvm h (hL n (by simp)) (hfit n (by simp))
    have hkeep := findRegId_none hvm h hname (hpre n (by simp))
    have hgrows (n' : Bytes) : ((Debugger.findRegId api n.1).on db).2.smapRegs[n']? = none →
        db.smapRegs[n']? = none := findRegId_grows hvm h
    rw [List.cons_append, List.mapM_cons]
    rcases hrun : (Debugger.findRegId api n.1).on db with ⟨e | id, db'⟩ <;>
      rw [hrun] at hround hkeep hgrows
    · rw [on_bind_error hrun]
      exact hround
    · rw [on_bind_ok hrun]
      have hpost := ih db' ⟨hround, hkeep, fun n' hn' hnone =>
        hpre n' (by simp [hn']) (hgrows n'.1 hnone)⟩
      rcases hrest : ((pre ++ name :: post).mapM fun n => Debugger.findRegId api n.1).on db' with
        ⟨e | ids, db''⟩ <;> rw [hrest] at hpost
      · rw [on_bind_error hrest]
        exact hpost
      · exact hpost.elim

end VMSide

namespace DBClient

variable {V : Type} {api : VMApi V} {T : RegTable} {P : V → Prop} {L : VmReg → Prop}
  {R : VmReg → Bytes → Prop} {w : World (Debugger V)} {name : Bytes}

/-- The register that is cached under the name: at the client, or else at the debugger. -/
def remembered (w : World (Debugger V)) (name : Bytes) : Option VmReg :=
  match w.client.regiNameMap[name]? with
  | some pos => (w.client.regiArr[pos]?).map RegInfos.idx
  | none => w.impl.smapRegs[name]?

/-- What is cached under the name is what the VM finds; if nothing is, the name is the own one of
what the VM finds. -/
structure AnswersName (T : RegTable) (w : World (Debugger V)) (name : Bytes) : Prop where
  cached : ∀ id, remembered w name = some id → T.find name = some id
  own : remembered w name = none → ∀ id d, T.find name = some id → T.info id = some d →
    d.name = name

/-- A name is rejected by the VM that is not cached, and that no register bears which the names
before it bring into the cache. -/
def RefusesName (T : RegTable) (w : World (Debugger V)) (names : List CStr) : Prop :=
  ∃ pre name post, names = pre ++ name :: post ∧ remembered w name.1 = none ∧ ¬ T.Finds name.1 ∧
    ∀ n ∈ pre, remembered w n.1 = none → ∀ id d, T.find n.1 = some id → T.info id = some d →
      d.name ≠ name.1

theorem remembered_of_notMem (h : name ∉ w.client.regiNameMap) :
    remembered w name = w.impl.smapRegs[name]? := by
  unfold remembered
  rw [Std.TreeMap.getElem?_eq_none h]

/-- A name that the client has cached. -/
theorem findRegName_remembered (h : CacheOf T L R w.client) (hname : name ∈ w.client.regiNameMap) :
    ∃ inf ∈ w.client.regiArr, (findRegName name : ClientM (Debugger V) _).on w = (.ok inf, w) ∧
      inf.name = name ∧ remembered w name = some inf.idx := by
  obtain ⟨pos, inf, hpos, hinf, hkey⟩ := h.byName.find hname
  refine ⟨inf, List.mem_of_getElem? hinf, ?_, hkey, ?_⟩
  · unfold findRegName
    rw [on_bind_ok (on_get w)]
    simp only [hpos, hinf]
    rfl
  · simp [remembered, hpos, hinf]

theorem notMem_of_remembered (h : CacheOf T L R w.client) (hnone : remembered w name = none) :
    name ∉ w.client.regiNameMap := by
  intro hin
  obtain ⟨inf, -, -, -, hsome⟩ := findRegName_remembered h hin
  cases hsome.symm.trans hnone

/-- What comes into the cache leaves the names in it alone. -/
theorem addRegs_name {c : DBClient} {pos : Nat} {inf : RegInfos} (infos : List RegInfos)
    (hpos : c.regiNameMap[name]? = some pos) (hinf : c.regiArr[pos]? = some inf) :
    (c.addRegs infos).regiNameMap[name]? = some pos ∧
      (c.addRegs infos).regiArr[pos]? = some inf := by
  induction infos generalizing c with
  | nil => exact ⟨hpos, hinf⟩
  | cons x infos ih =>
    refine ih (Indexes.insertIfNew_some x.name hpos) ?_
    show (c.regiArr ++ [x])[pos]? = some inf
    rw [List.getElem?_append_left (List.getElem?_eq_some_iff.mp hinf).1]
    exact hinf

theorem remembered_addRegs {w' : World (Debugger V)} {infos : List RegInfos}
    (h : CacheOf T L R w.client) (hclient : w'.client = w.client.addRegs infos)
    (hin : name ∈ w.client.regiNameMap) :
    name ∈ w'.client.regiNameMap ∧ remembered w' name = remembered w name := by
  obtain ⟨pos, inf, hpos, hinf, -⟩ := h.byName.find hin
  obtain ⟨hpos', hinf'⟩ := addRegs_name infos hpos hinf
  rw [← hclient] at hpos' hinf'
  constructor
  · rw [Std.TreeMap.mem_iff_isSome_getElem?, hpos']
    rfl
  · simp [remembered, hpos, hpos', hinf, hinf']

/-- A name that was not in the cache comes into it with a register that the VM finds under it, if
every register that came in bears the name it was asked for by. -/
theorem remembered_added {w' : World (Debugger V)} {infos : List RegInfos}
    (h : CacheOf T L R w.client) (h' : CacheOf T L R w'.client)
    (hclient : w'.client = w.client.addRegs infos)
    (hown : ∀ inf ∈ infos, T.find inf.name = some inf.idx) (hnot : name ∉ w.client.regiNameMap)
    (hin : name ∈ w'.client.regiNameMap) {id : VmReg} (hid : remembered w' name = some id) :
    T.find name = some id := by
  obtain ⟨inf, hinf, -, hkey, hsome⟩ := findRegName_remembered h' hin
  obtain rfl := Option.some.inj (hsome.symm.trans hid)
  rw [hclient, addRegs_regiArr] at hinf
  rcases List.mem_append.mp hinf with hold | hadded
  · exact absurd (h.byName.complete _ (hkey ▸ List.mem_map_of_mem hold)) hnot
  · rw [← hkey]
    exact hown inf hadded

section Find

variable (hvm : api.HasRegs T P R) {names : List CStr}
include hvm

/-- Where a name is refused, nothing comes into the cache of the client. -/
theorem fetchRegInfosByName_refused (hw : Ready T P L R w)
    (hL : ∀ name ∈ names, ∀ id, T.find name.1 = some id → L id)
    (hfit : ∀ name ∈ names, name.1 ∉ w.client.regiNameMap → ∀ id, T.find name.1 = some id →
      T.Fits id) (h : RefusesName T w names) :
    Outcome (fun _ _ => False) (fun e w' => Ready T P L R w' ∧ Caught e)
      ((fetchRegInfosByName (VMSide.impl api) names).on w) := by
  obtain ⟨pre, name, post, rfl, hnone, hno, hpre⟩ := h
  unfold fetchRegInfosByName
  rw [on_bind_ok (on_get w)]
  have hmiss : name.1 ∉ w.client.regiNameMap := notMem_of_remembered hw.cache hnone
  obtain ⟨pre', post', hfilter, hmem⟩ : ∃ pre' post',
      (pre ++ name :: post).filter (·.1 ∉ w.client.regiNameMap) = pre' ++ name :: post' ∧
        ∀ n ∈ pre', n ∈ pre ∧ n.1 ∉ w.client.regiNameMap := by
    refine ⟨pre.filter (·.1 ∉ w.client.regiNameMap), post.filter (·.1 ∉ w.client.regiNameMap), ?_,
      fun n hn => by simpa using hn⟩
    rw [List.filter_append, List.filter_cons_of_pos (by simpa using hmiss)]
  have hLmiss : ∀ n ∈ pre' ++ name :: post', ∀ id, T.find n.1 = some id → L id :=
    fun n hn => hL n (List.mem_of_mem_filter (hfilter ▸ hn))
  simp only [hfilter]
  rw [if_neg (by simp)]
  generalize hlen : List.replicate (pre' ++ name :: post').length (0 : VmReg) = out
  have hout : out.length = (pre' ++ name :: post').length := hlen ▸ List.length_replicate
  have hcall := VMSide.findRegsIds_refused hvm hout hLmiss
    (fun n hn => hfit n (by simp [(hmem n hn).1]) (hmem n hn).2) hno w.impl
    ⟨hw.server, (remembered_of_notMem hmiss).symm.trans hnone, fun n hn hn' =>
      hpre n (hmem n hn).1 ((remembered_of_notMem (hmem n hn).2).trans hn')⟩
  rcases hrun : (VMSide.impl api (.findRegsIds (pre' ++ name :: post') out)).on w.impl with
    ⟨e | ids, db⟩ <;> rw [show (VMSide.findRegsIds api _ _).on _ = _ from hrun] at hcall
  · rw [call, on_bind_error (on_zoom hrun)]
    exact ⟨⟨hw.stopped, hcall.1, hw.cache⟩, hcall.2⟩
  · exact hcall.elim

/-- Names that are answered come into the cache with what the VM finds under them. -/
theorem fetchRegInfosByName_names (hw : Ready T P L R w)
    (hL : ∀ name ∈ names, ∀ id, T.find name.1 = some id → L id)
    (hfit : ∀ name ∈ names, name.1 ∉ w.client.regiNameMap → ∀ id, T.find name.1 = some id →
      T.Fits id) (h : ∀ name ∈ names, AnswersName T w name.1) :
    Outcome (fun _ w' => Ready T P L R w' ∧
        (∀ name ∈ names, name.1 ∉ w.client.regiNameMap → T.Finds name.1) ∧
        ∀ name ∈ names, name.1 ∈ w'.client.regiNameMap ∧
          ∀ id, remembered w' name.1 = some id → T.find name.1 = some id)
      (fun e w' => Ready T P L R w' ∧ Caught e ∧
        ∃ name ∈ names, name.1 ∉ w.client.regiNameMap ∧ ¬ T.Finds name.1)
      ((fetchRegInfosByName (VMSide.impl api) names).on w) := by
  unfold fetchRegInfosByName
  rw [on_bind_ok (on_get w)]
  have hmem (name : CStr) : name ∈ names.filter (·.1 ∉ w.client.regiNameMap) ↔
      name ∈ names ∧ name.1 ∉ w.client.regiNameMap := by simp
  simp only
  generalize names.filter (·.1 ∉ w.client.regiNameMap) = miss at hmem ⊢
  split
  · next hmiss =>
    subst hmiss
    have hin : ∀ name ∈ names, name.1 ∈ w.client.regiNameMap := fun name hname =>
      by_contra fun hnot => by simpa [hname, hnot] using hmem name
    exact ⟨hw, fun name hname hnot => absurd (hin name hname) hnot, fun name hname =>
      ⟨hin name hname, (h name hname).cached⟩⟩
  have hserver : ∀ n ∈ miss, Debugger.AnswersName T w.impl n.1 := fun n hn => by
    obtain ⟨hname, hnot⟩ := (hmem n).mp hn
    have := h n hname
    exact ⟨remembered_of_notMem hnot ▸ this.cached, remembered_of_notMem hnot ▸ this.own⟩
  have hfits : ∀ n ∈ miss, ∀ id, T.find n.1 = some id → T.Fits id := fun n hn =>
    hfit n ((hmem n).mp hn).1 ((hmem n).mp hn).2
  generalize hlen : List.replicate miss.length (0 : VmReg) = out
  have hout : out.length = miss.length := hlen ▸ List.length_replicate
  have hcall := VMSide.findRegsIds_names hvm hout
    (fun n hn => hL n ((hmem n).mp hn).1) w.impl ⟨hw.server, hserver⟩
  rcases hrun : (VMSide.impl api (.findRegsIds miss out)).on w.impl with ⟨e | idxs, db⟩ <;>
    rw [show (VMSide.findRegsIds api _ _).on _ = _ from hrun] at hcall
  · obtain ⟨⟨hdb, -⟩, he⟩ := hcall
    obtain ⟨hno, hcaught⟩ := he hfits
    rw [call, on_bind_error (on_zoom hrun)]
    obtain ⟨n, hn, hnot⟩ : ∃ n ∈ miss, ¬ T.Finds n.1 := by simpa using hno
    obtain ⟨hname, hmiss⟩ := (hmem n).mp hn
    exact ⟨⟨hw.stopped, hdb, hw.cache⟩, hcaught, n, hname, hmiss, hnot⟩
  obtain ⟨⟨hdb, -⟩, hidxs, hfinds⟩ := hcall
  rw [call, on_bind_ok (on_zoom hrun)]
  have hLidx : ∀ id ∈ idxs, L id := fun id hid => by
    obtain ⟨-, -, hLid, -⟩ := forall₂_mem_right hidxs hid
    exact hLid
  have hw₁ : Ready T P L R { w with impl := db } := ⟨hw.stopped, hdb, hw.cache⟩
  have hfetch := fetchRegInfosById_yields hvm hw₁ hLidx _ rfl
  have hq : ∀ id ∈ idxs, id ∉ w.client.regiIdxMap → T.Fits id := fun id hid _ => by
    obtain ⟨n, hn, -, -, hfind⟩ := forall₂_mem_right hidxs hid
    exact hfits n hn id hfind
  have hhas : ∀ id ∈ idxs, T.Has id := fun id hid => by
    obtain ⟨-, -, -, hhas, -⟩ := forall₂_mem_right hidxs hid
    exact hhas
  rcases hrun' : (fetchRegInfosById (VMSide.impl api) idxs).on { w with impl := db } with
    ⟨e | u, w'⟩ <;> rw [hrun'] at hfetch
  · exact absurd hhas (hfetch.2 hq).1
  obtain ⟨hw', ⟨hfetched, -, infos, hclient, hinfos⟩, -⟩ := hfetch
  refine ⟨hw', fun name hname hnot => hfinds hfits name ((hmem name).mpr ⟨hname, hnot⟩),
    fun name hname => ?_⟩
  by_cases hin : name.1 ∈ w.client.regiNameMap
  · obtain ⟨hin', hsame⟩ := remembered_addRegs hw.cache hclient hin
    exact ⟨hin', hsame ▸ (h name hname).cached⟩
  -- only what was asked for by name is new, and it bears the name it was asked for by
  have hown : ∀ n ∈ miss, ∀ inf ∈ w'.client.regiArr, T.find n.1 = some inf.idx → inf.name = n.1 :=
    fun n hn inf hinf hfind =>
      (hserver n hn).name_eq hw.server hfind (hw'.cache.infos inf hinf).2
  have hadded : ∀ inf ∈ infos, T.find inf.name = some inf.idx := fun inf hinf => by
    obtain ⟨n, hn, -, -, hfind⟩ := forall₂_mem_right hidxs (hinfos inf hinf)
    have hmem' : inf ∈ w'.client.regiArr := by
      rw [hclient, addRegs_regiArr]
      exact List.mem_append_right _ hinf
    rw [hown n hn inf hmem' hfind]
    exact hfind
  have hmiss := (hmem name).mpr ⟨hname, hin⟩
  obtain ⟨id, hid, -, -, hfind⟩ := forall₂_mem_left hidxs hmiss
  obtain ⟨inf, hinf, rfl⟩ := List.mem_map.mp
    ((hw'.cache.byIdx.mem_iff id).mp (hfetched id (.inr hid)))
  have hnew : name.1 ∈ w'.client.regiNameMap :=
    hw'.cache.byName.complete _ (hown name hmiss inf hinf hfind ▸ List.mem_map_of_mem hinf)
  exact ⟨hnew, fun id' hid' =>
    remembered_added hw.cache hw'.cache hclient hadded hin hnew hid'⟩

/-- A call whose names are answered or refused is answered by the VM: it returns what the VM finds,
position by position, or throws because the VM rejects a name that the client has not cached. -/
theorem findRegsIds_answered (hw : Ready T P L R w) {outIds : List VmReg}
    (hout : names.length ≤ outIds.length)
    (hL : ∀ name ∈ names, ∀ id, T.find name.1 = some id → L id)
    (hfit : ∀ name ∈ names, name.1 ∉ w.client.regiNameMap → ∀ id, T.find name.1 = some id →
      T.Fits id) (h : RefusesName T w names ∨ ∀ name ∈ names, AnswersName T w name.1) :
    Outcome (fun ids w' => Ready T P L R w' ∧
        (∀ name ∈ names, name.1 ∉ w.client.regiNameMap → T.Finds name.1) ∧
        ∃ items, ids = items ++ outIds.drop names.length ∧
          List.Forall₂ (fun name id => T.find name.1 = some id) names items)
      (fun e w' => Ready T P L R w' ∧ Caught e ∧
        ∃ name ∈ names, name.1 ∉ w.client.regiNameMap ∧ ¬ T.Finds name.1)
      ((findRegsIds (VMSide.impl api) names outIds).on w) := by
  unfold findRegsIds
  rw [on_bind_ok (assertState_on hw.stopped)]
  rcases h with hrefuses | hanswers
  · have hfetch := fetchRegInfosByName_refused hvm hw hL hfit hrefuses
    obtain ⟨pre, name, post, rfl, hnone, hno, -⟩ := hrefuses
    have hmiss : name.1 ∉ w.client.regiNameMap := notMem_of_remembered hw.cache hnone
    rcases hrun : (fetchRegInfosByName (VMSide.impl api) (pre ++ name :: post)).on w with
      ⟨e | u, w'⟩ <;> rw [hrun] at hfetch
    · rw [on_bind_error hrun]
      exact ⟨hfetch.1, hfetch.2, name, by simp, hmiss, hno⟩
    · exact hfetch.elim
  · have hfetch := fetchRegInfosByName_names hvm hw hL hfit hanswers
    rcases hrun : (fetchRegInfosByName (VMSide.impl api) names).on w with ⟨e | u, w'⟩ <;>
      rw [hrun] at hfetch
    · rw [on_bind_error hrun]
      exact hfetch
    obtain ⟨hw', hfinds, hnames⟩ := hfetch
    rw [on_bind_ok hrun, Debugger.itemsAt_take hout, lift_ok, pure_bind]
    have hread : Yields (· = w') (Ready T P L R) Caught True True
        (names.mapM fun name => do
          let reg ← (findRegName name.1 : ClientM (Debugger V) _)
          return reg.idx) fun items _ =>
          List.Forall₂ (fun name id => T.find name.1 = some id) names items := by
      refine readAll hw' names fun name hname => ?_
      intro s hs
      subst s
      obtain ⟨hmem, hcached⟩ := hnames name hname
      obtain ⟨inf, -, hfind, -, hsome⟩ := findRegName_remembered hw'.cache hmem
      rw [on_bind_ok hfind]
      exact ⟨rfl, hcached inf.idx hsome, fun _ => trivial⟩
    have hread := hread w' rfl
    rcases hrun' : (names.mapM fun (name : CStr) => do
        let reg ← (findRegName name.1 : ClientM (Debugger V) _)
        return reg.idx).on w' with ⟨e | items, w''⟩ <;> rw [hrun'] at hread
    · exact absurd trivial (hread.2 trivial).1
    · rw [on_bind_ok hrun']
      exact ⟨hread.1, hfinds, items, rfl, hread.2.1⟩

end Find

end DBClient

end Odb
