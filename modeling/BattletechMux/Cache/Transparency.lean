/-
Module: BattletechMux.Cache.Transparency
Purpose: The cache is transparent: over any file that holds some attributes, with any number and
  depth of buckets, every read answers what was put last and a sync leaves the attributes on the
  file, in every run whose trims free no holder of the first block.
-/
import BattletechMux.Cache.Contents

namespace BattletechMux.Cache

open Function (update update_self update_of_ne)
open ByteCodec (Byte)
open LinkedMemory (Links Deque Chain)
open Bisection (Increasing)

/-- The cache is in order, and the present attributes are `atoms`. -/
def Transparent (config : Config) (s : Store) (atoms : Objname → List Attrib) : Prop :=
  ∃ shelf, Layout s shelf ∧ Contents config s shelf atoms

variable {config : Config} {s s' : Store} {shelf shelf' : Place → List Addr}
  {atoms : Objname → List Attrib} {cp : Addr} {x : Nat} {lane target : Lane}

theorem move_spec (layout : Layout s shelf) (contents : Contents config s shelf atoms) {o : Obj}
    (mem : cp ∈ shelf (x, lane)) (here : s.op cp = some o) (ne : lane ≠ target)
    (clean : target.clean → lane.clean) :
    ∃ shelf', Layout ((s.dequeue (x, lane) cp).inshead (x, target) cp) shelf' ∧
      Contents config ((s.dequeue (x, lane) cp).inshead (x, target) cp) shelf' atoms ∧
        cp ∈ shelf' (x, target) := by
  obtain ⟨pre, post, split⟩ := List.append_of_mem mem
  have other : ((x, lane) : Place) ≠ (x, target) := fun eq => ne (Prod.mk.inj eq).2
  have without : ∀ {p c}, c ∈ update shelf (x, lane) (pre ++ post) p ↔ c ∈ shelf p ∧ c ≠ cp :=
    layout.mem_without split
  have eq : ∀ p, p ≠ (x, target) →
      update (update shelf (x, lane) (pre ++ post)) (x, target) (cp :: shelf (x, target)) p =
        update shelf (x, lane) (pre ++ post) p :=
    fun p elsewhere => update_of_ne elsewhere ..
  refine ⟨_, layout.move split other, contents.rearrange (fun _ => rfl) rfl ?_ ?_, ?_⟩
  · intro p c hin
    by_cases there : p = (x, target)
    · subst there
      rw [update_self] at hin
      rcases List.mem_cons.mp hin with rfl | hin
      · refine ⟨lane, mem, fun gone => ?_, fun cleaned => Or.inl (clean cleaned)⟩
        rw [here] at gone
        cases gone
      · exact ⟨target, hin, fun _ old => old, fun cleaned => Or.inl cleaned⟩
    · rw [eq p there] at hin
      exact ⟨p.2, (without.mp hin).1, fun _ old => old, fun cleaned => Or.inl cleaned⟩
  · intro p c o' hin _
    by_cases is : c = cp
    · exact Or.inr ⟨(x, target), by rw [update_self, is]; exact List.mem_cons_self⟩
    · refine Or.inr ⟨p, ?_⟩
      by_cases there : p = (x, target)
      · rw [there, update_self]
        exact List.mem_cons_of_mem _ (there ▸ hin)
      · rw [eq p there]
        exact without.mpr ⟨hin, is⟩
  · rw [update_self]
    exact List.mem_cons_self

theorem dirty_spec (layout : Layout s shelf) (contents : Contents config s shelf atoms) {o : Obj}
    (mem : cp ∈ shelf (x, lane)) (here : s.op cp = some o) :
    ∃ shelf', Layout (s.dirty x lane cp) shelf' ∧
      Contents config (s.dirty x lane cp) shelf' atoms ∧ cp ∈ shelf' (x, .mactive) := by
  unfold Store.dirty
  by_cases there : lane = .mactive
  · rw [if_pos there]
    exact ⟨shelf, layout, contents, there ▸ mem⟩
  · rw [if_neg there]
    exact move_spec layout contents mem here there fun wrong => by simp [Lane.clean] at wrong

theorem dirty_op (s : Store) (x : Nat) (lane : Lane) (cp : Addr) :
    (s.dirty x lane cp).op = s.op := by
  unfold Store.dirty
  split <;> rfl

theorem dirty_cacheRepl (s : Store) (x : Nat) (lane : Lane) (cp : Addr) (new : Option Obj) :
    (s.cacheRepl cp new).dirty x lane cp = (s.dirty x lane cp).cacheRepl cp new := by
  unfold Store.dirty
  split <;> rfl

theorem shelve_spec (layout : Layout s shelf) (contents : Contents config s shelf atoms) {o : Obj}
    (loose : ∀ q, cp ∉ shelf q) (known : cp < s.fresh) (uncached : Uncached s shelf o.name)
    (sound : o.Sound) (clean : lane.clean → OnFile s.disk o) :
    Transparent config ((s.cacheRepl cp (some o)).inshead (bucket config o.name, lane) cp)
      (update atoms o.name o.atrs) := by
  have held : Layout (s.cacheRepl cp (some o)) shelf := layout.congr rfl rfl (Nat.le_refl _)
  exact ⟨_, held.inshead loose known _, contents.shelve loose uncached rfl sound clean rfl rfl⟩

theorem touched_spec (goes : Store.touched lane = some target) :
    lane ≠ target ∧ target.clean = lane.clean := by
  cases lane <;> cases goes <;> exact ⟨by decide, rfl⟩

theorem cacheGet_spec (h : Transparent config s atoms) (nam : Aname) :
    Safe (fun result => Transparent config result.1 atoms ∧
        result.2 = Obj.valueOf ⟨nam.object, atoms nam.object⟩ nam.attrnum)
      (s.cacheGet config nam) := by
  obtain ⟨shelf, layout, contents⟩ := h
  have read := getAttrib_spec (contents.sound nam.object) nam.attrnum
  unfold Store.cacheGet
  rcases locate_spec layout contents nam.object with ⟨missing, uncached⟩ |
    ⟨lane, cp, mem, hf, here⟩
  · simp only [missing, bind, Except.bind, pure, Except.pure]
    rcases dddbGet_spec (contents.sound nam.object) (contents.filed uncached) with
      ⟨gone, empty⟩ | fetched
    · simp only [gone]
      refine ⟨⟨shelf, layout, contents⟩, ?_⟩
      simp only at empty
      rw [Obj.valueOf, empty]
      rfl
    · simp only [fetched, read, orFault]
      refine (getFreeEntry_spec layout contents (bucket config nam.object)).bind ?_
      rintro ⟨t, cp⟩ ⟨shelf', layout', contents', loose, known, still⟩
      have file := contents'.filed (still _ uncached)
      have shelved := @shelve_spec config t shelf' atoms cp .active layout' contents'
        ⟨nam.object, atoms nam.object⟩ loose known (still _ uncached) (contents.sound _) fun _ => file
      rw [Function.update_eq_self] at shelved
      exact ⟨shelved, rfl⟩
  · simp only [hf, bind, Except.bind, pure, Except.pure]
    cases goes : Store.touched lane with
    | none =>
      simp only [here, read, orFault]
      exact ⟨⟨shelf, layout, contents⟩, rfl⟩
    | some target =>
      have moved := @move_spec config s shelf atoms cp _ lane target layout contents _ mem here
        (touched_spec goes).1 fun clean => (touched_spec goes).2 ▸ clean
      obtain ⟨shelf', layout', contents', _⟩ := moved
      have there : ((s.dequeue (bucket config nam.object, lane) cp).inshead
          (bucket config nam.object, target) cp).op cp = some ⟨nam.object, atoms nam.object⟩ := here
      simp only [there, read, orFault]
      exact ⟨⟨shelf', layout', contents'⟩, rfl⟩

def Changed (atoms atoms' : Objname → List Attrib) (nam : Aname)
    (value : Option (List Byte)) : Prop :=
  (∀ object ≠ nam.object, atoms' object = atoms object) ∧
    ∀ attrnum, Obj.valueOf ⟨nam.object, atoms' nam.object⟩ attrnum =
      if attrnum = nam.attrnum then value else Obj.valueOf ⟨nam.object, atoms nam.object⟩ attrnum

theorem changed_update {nam : Aname} {value : Option (List Byte)} {o : Obj}
    (values : ∀ attrnum, o.valueOf attrnum =
      if attrnum = nam.attrnum then value
      else Obj.valueOf ⟨nam.object, atoms nam.object⟩ attrnum) :
    Changed atoms (update atoms nam.object o.atrs) nam value := by
  refine ⟨fun object ne => update_of_ne ne .., fun attrnum => ?_⟩
  rw [update_self, ← values attrnum]
  rfl

theorem cachePut_spec (h : Transparent config s atoms) (nam : Aname) (obj : Text) :
    Safe (fun s' => ∃ atoms', Transparent config s' atoms' ∧
        Changed atoms atoms' nam (some obj.chars))
      (s.cachePut config nam obj) := by
  obtain ⟨shelf, layout, contents⟩ := h
  obtain ⟨o', written, named, sound, _, values⟩ :=
    setAttrib_spec (contents.sound nam.object) nam.attrnum obj
  simp only at named
  unfold Store.cachePut
  rcases locate_spec layout contents nam.object with ⟨missing, uncached⟩ |
    ⟨lane, cp, mem, hf, here⟩
  · simp only [missing, bind, Except.bind, pure, Except.pure]
    have newobj : ∃ ret, dddbGet s.disk nam.object = .ok ret ∧
        ret.getD ⟨nam.object, []⟩ = ⟨nam.object, atoms nam.object⟩ := by
      rcases dddbGet_spec (contents.sound nam.object) (contents.filed uncached) with
        ⟨gone, empty⟩ | fetched
      · exact ⟨none, gone, by simpa using empty.symm⟩
      · exact ⟨_, fetched, rfl⟩
    obtain ⟨ret, fetched, is⟩ := newobj
    simp only [fetched, is, written, orFault]
    refine (getFreeEntry_spec layout contents (bucket config nam.object)).bind ?_
    rintro ⟨t, cp⟩ ⟨shelf', layout', contents', loose, known, still⟩
    have shelved := @shelve_spec config t shelf' atoms cp .mactive layout' contents' o' loose known
      (named ▸ still _ uncached) sound fun wrong => by simp [Lane.clean] at wrong
    rw [named] at shelved
    exact ⟨_, shelved, changed_update values⟩
  · simp only [hf, here, written, bind, Except.bind, pure, Except.pure, orFault,
      dirty_cacheRepl]
    obtain ⟨shelf', layout', contents', member'⟩ := dirty_spec layout contents mem here
    have op : (s.dirty (bucket config nam.object) lane cp).op cp =
        some ⟨nam.object, atoms nam.object⟩ := by rw [dirty_op, here]
    have modified := contents'.modify member' op rfl named sound layout'.apart
    exact ⟨_, ⟨shelf', layout'.congr rfl rfl (Nat.le_refl _), modified⟩, changed_update values⟩

theorem cacheDel_spec (h : Transparent config s atoms) (nam : Aname) :
    Safe (fun s' => ∃ atoms', Transparent config s' atoms' ∧ Changed atoms atoms' nam none)
      (s.cacheDel config nam) := by
  obtain ⟨shelf, layout, contents⟩ := h
  obtain ⟨o', written, named, sound, values⟩ :=
    delAttrib_spec (contents.sound nam.object) nam.attrnum
  simp only at named
  unfold Store.cacheDel
  rcases locate_spec layout contents nam.object with ⟨missing, uncached⟩ |
    ⟨lane, cp, mem, hf, here⟩
  · simp only [missing, bind, Except.bind, pure, Except.pure]
    rcases dddbGet_spec (contents.sound nam.object) (contents.filed uncached) with
      ⟨gone, empty⟩ | fetched
    · simp only [gone]
      refine ⟨atoms, ⟨shelf, layout, contents⟩, fun _ _ => rfl, fun attrnum => ?_⟩
      simp only at empty
      simp [Obj.valueOf, empty, Bisection.lookup]
    · simp only [fetched, written, orFault]
      refine (getFreeEntry_spec layout contents (bucket config nam.object)).bind ?_
      rintro ⟨t, cp⟩ ⟨shelf', layout', contents', loose, known, still⟩
      have shelved := @shelve_spec config t shelf' atoms cp .mactive layout' contents' o' loose
        known (named ▸ still _ uncached) sound fun wrong => by simp [Lane.clean] at wrong
      rw [named] at shelved
      exact ⟨_, shelved, changed_update values⟩
  · obtain ⟨shelf', layout', contents', member'⟩ := dirty_spec layout contents mem here
    have op : (s.dirty (bucket config nam.object) lane cp).op cp =
        some ⟨nam.object, atoms nam.object⟩ := by rw [dirty_op, here]
    simp only [hf, op, written, bind, Except.bind, pure, Except.pure, orFault]
    have modified := contents'.modify member' op rfl named sound layout'.apart
    exact ⟨_, ⟨shelf', layout'.congr rfl rfl (Nat.le_refl _), modified⟩, changed_update values⟩

theorem Store.spares_init {init : List Addr} (many : s.count x > config.cdepth)
    (counted : s'.count x = s.count x - 1) (spared : s.spares config x (init ++ [cp])) :
    config.carved cp = false ∧ s'.spares config x init := by
  unfold Store.spares at spared ⊢
  have above : s.count x - config.cdepth = s'.count x - config.cdepth + 1 := by omega
  rw [above, List.rtake_concat_succ, List.all_append, Bool.and_eq_true] at spared
  exact ⟨by simpa using spared.2, spared.1⟩

/-- The bucket `y` is as it was. -/
def Kept (s s' : Store) (shelf shelf' : Place → List Addr) (y : Nat) : Prop :=
  s'.count y = s.count y ∧ ∀ lane, shelf' (y, lane) = shelf (y, lane)

theorem Kept.refl (s : Store) (shelf : Place → List Addr) (y : Nat) : Kept s s shelf shelf y :=
  ⟨rfl, fun _ => rfl⟩

theorem Kept.trans {s'' : Store} {shelf'' : Place → List Addr} {y : Nat}
    (fst : Kept s s' shelf shelf' y) (snd : Kept s' s'' shelf' shelf'' y) :
    Kept s s'' shelf shelf'' y :=
  ⟨snd.1.trans fst.1, fun lane => (snd.2 lane).trans (fst.2 lane)⟩

theorem Kept.spares {y : Nat} (kept : Kept s s' shelf shelf' y) {old : List Addr}
    (spared : s.spares config y old) : s'.spares config y old := by
  unfold Store.spares at spared ⊢
  rwa [kept.1]

theorem trimLoop_spec (config : Config) (x rounds : Nat) {s : Store} {shelf : Place → List Addr}
    (layout : Layout s shelf) (contents : Contents config s shelf atoms)
    (spared : s.spares config x (shelf (x, .old))) :
    Safe (fun s' => ∃ shelf', Layout s' shelf' ∧ Contents config s' shelf' atoms ∧
        (∀ lane ≠ .old, shelf' (x, lane) = shelf (x, lane)) ∧ ∀ y ≠ x, Kept s s' shelf shelf' y)
      (Store.trimLoop config x rounds s) := by
  have stops : Safe (fun s' => ∃ shelf', Layout s' shelf' ∧ Contents config s' shelf' atoms ∧
      (∀ lane ≠ .old, shelf' (x, lane) = shelf (x, lane)) ∧ ∀ y ≠ x, Kept s s' shelf shelf' y)
      (.ok s) := ⟨shelf, layout, contents, fun _ _ => rfl, fun y _ => .refl s shelf y⟩
  induction rounds generalizing s shelf with
  | zero => exact stops
  | succ rounds ih =>
    rw [Store.trimLoop]
    by_cases many : s.count x > config.cdepth
    · rw [if_pos many]
      cases tail : (s.chain (x, .old)).tail with
      | none => exact stops
      | some cp =>
        have some' : shelf (x, .old) ≠ [] := fun empty => by
          rw [layout.closed (x, .old) rfl empty] at tail
          cases tail
        have last := (layout.holds (x, .old)).tail_eq some'
        rw [tail] at last
        obtain ⟨init, split⟩ := List.getLast?_eq_some_iff.mp last.symm
        have mem : cp ∈ shelf (x, .old) := by simp [split]
        have memory : (∀ c ≠ cp, (s.trimTail x cp).op c = s.op c) ∧
            (s.trimTail x cp).disk = s.disk ∧
            (s.trimTail x cp).count = update s.count x (s.count x - 1) := by
          unfold Store.trimTail
          cases s.links.prev cp <;>
            exact ⟨fun c ne => update_of_ne ne .., rfl, rfl⟩
        rw [split] at spared
        obtain ⟨own, spared'⟩ := @Store.spares_init config s (s.trimTail x cp) cp x init many
          (by rw [memory.2.2, update_self]) spared
        have dropped := contents.drop layout split
          (fun o here => contents.clean mem here rfl) memory.1 memory.2.1
        simp only [own, Bool.false_eq_true, if_false]
        have trimmed := layout.trimTail split
        refine (ih trimmed dropped.1 (by rwa [update_self])
          ⟨_, trimmed, dropped.1, fun _ _ => rfl, fun y _ => .refl _ _ y⟩).mono ?_
        rintro s' ⟨shelf', layout', contents', lanes, kept⟩
        refine ⟨shelf', layout', contents', fun lane other => ?_, fun y ne => ?_⟩
        · rw [lanes lane other, update_of_ne fun eq => other (Prod.mk.inj eq).2]
        · refine Kept.trans ⟨?_, fun lane => ?_⟩ (kept y ne)
          · rw [memory.2.2, update_of_ne ne]
          · exact update_of_ne (fun eq => ne (Prod.mk.inj eq).1) ..
    · rw [if_neg many]
      exact stops

theorem Contents.pour (contents : Contents config s shelf atoms) {cells : List Addr}
    (ne : lane ≠ target) (young : lane ≠ .old)
    (members : ∀ c, c ∈ cells ↔ c ∈ shelf (x, lane) ∨ c ∈ shelf (x, target))
    (clean : target.clean →
      lane.clean ∨ ∀ c ∈ shelf (x, lane), ∀ o, s.op c = some o → OnFile s.disk o)
    (op : s'.op = s.op) (disk : s'.disk = s.disk) :
    Contents config s' (update (update shelf (x, target) cells) (x, lane) []) atoms := by
  have apart : ((x, target) : Place) ≠ (x, lane) := fun is => ne (Prod.mk.inj is).2.symm
  refine contents.rearrange (fun _ => congrFun op _) disk ?_ ?_
  · intro q c mem
    by_cases source : q = (x, lane)
    · rw [source, update_self] at mem
      cases mem
    rw [update_of_ne source] at mem
    by_cases goal : q = (x, target)
    · subst goal
      rw [update_self] at mem
      rcases (members c).mp mem with mem | mem
      · refine ⟨lane, mem, fun _ is => absurd is young, fun cleaned => ?_⟩
        exact (clean cleaned).imp_right fun written => written c mem
      · exact ⟨target, mem, fun _ is => is, fun cleaned => Or.inl cleaned⟩
    · rw [update_of_ne goal] at mem
      exact ⟨q.2, mem, fun _ is => is, fun cleaned => Or.inl cleaned⟩
  · intro q c o mem _
    refine Or.inr ?_
    by_cases source : q = (x, lane)
    · refine ⟨(x, target), ?_⟩
      rw [update_of_ne apart, update_self]
      exact (members c).mpr (Or.inl (source ▸ mem))
    by_cases goal : q = (x, target)
    · refine ⟨(x, target), ?_⟩
      rw [update_of_ne apart, update_self]
      exact (members c).mpr (Or.inr (goal ▸ mem))
    · refine ⟨q, ?_⟩
      rwa [update_of_ne source, update_of_ne goal]

theorem rechain_spec (layout : Layout s shelf) (contents : Contents config s shelf atoms)
    (x : Nat) (active : lane.inactive = false) (inactive : target.inactive = true)
    (eq : target.clean = lane.clean) :
    Layout (s.rechain (x, lane) (x, target)) (update (update shelf (x, target)
        (shelf (x, lane) ++ shelf (x, target))) (x, lane) []) ∧
      Contents config (s.rechain (x, lane) (x, target)) (update (update shelf (x, target)
        (shelf (x, lane) ++ shelf (x, target))) (x, lane) []) atoms ∧
      (s.rechain (x, lane) (x, target)).count = s.count := by
  have ne : lane ≠ target := by
    rintro rfl
    rw [inactive] at active
    cases active
  have memory : (s.rechain (x, lane) (x, target)).op = s.op ∧
      (s.rechain (x, lane) (x, target)).disk = s.disk ∧
      (s.rechain (x, lane) (x, target)).count = s.count := by
    unfold Store.rechain
    split <;> exact ⟨rfl, rfl, rfl⟩
  have apart : ((x, lane) : Place) ≠ (x, target) := fun is => ne (Prod.mk.inj is).2
  refine ⟨layout.rechain apart active inactive,
    contents.pour ne ?_ (fun c => List.mem_append) ?_ memory.1 memory.2.1, memory.2.2⟩
  · rintro rfl
    cases active
  · exact fun clean => Or.inl (eq ▸ clean)

theorem rejoin_spec (layout : Layout s shelf) (contents : Contents config s shelf atoms)
    (x : Nat) (ne : lane ≠ target) (modified : lane.clean = false)
    (written : ∀ c ∈ shelf (x, lane), ∀ o, s.op c = some o → OnFile s.disk o) :
    Layout (s.rejoin (x, lane) (x, target)) (update (update shelf (x, target)
        (shelf (x, target) ++ shelf (x, lane))) (x, lane) []) ∧
      Contents config (s.rejoin (x, lane) (x, target)) (update (update shelf (x, target)
        (shelf (x, target) ++ shelf (x, lane))) (x, lane) []) atoms ∧
      (s.rejoin (x, lane) (x, target)).op = s.op ∧
        (s.rejoin (x, lane) (x, target)).disk = s.disk ∧
        (s.rejoin (x, lane) (x, target)).count = s.count := by
  have memory : (s.rejoin (x, lane) (x, target)).op = s.op ∧
      (s.rejoin (x, lane) (x, target)).disk = s.disk ∧
      (s.rejoin (x, lane) (x, target)).count = s.count := by
    unfold Store.rejoin
    split <;> exact ⟨rfl, rfl, rfl⟩
  have apart : ((x, lane) : Place) ≠ (x, target) := fun is => ne (Prod.mk.inj is).2
  refine ⟨layout.rejoin apart, contents.pour ne ?_
    (fun c => by rw [List.mem_append, or_comm]) (fun _ => Or.inr written) memory.1 memory.2.1,
    memory⟩
  rintro rfl
  cases modified

/-- The active holders of the bucket `x` are in front of the inactive ones. -/
def Rechained (s s' : Store) (shelf shelf' : Place → List Addr) (x : Nat) : Prop :=
  s'.count x = s.count x ∧ shelf' (x, .old) = shelf (x, .active) ++ shelf (x, .old) ∧
    shelf' (x, .mold) = shelf (x, .mactive) ++ shelf (x, .mold)

theorem resetBucket_spec (layout : Layout s shelf) (contents : Contents config s shelf atoms)
    (trim : Bool) (x : Nat)
    (spared : trim = true → s.spares config x (shelf (x, .active) ++ shelf (x, .old))) :
    Safe (fun s' => ∃ shelf', Layout s' shelf' ∧ Contents config s' shelf' atoms ∧
        (trim = false → Rechained s s' shelf shelf' x) ∧ ∀ y ≠ x, Kept s s' shelf shelf' y)
      (Store.resetBucket config trim s x) := by
  obtain ⟨layout, contents, count⟩ := @rechain_spec config s shelf atoms .active .old layout
    contents x rfl rfl rfl
  obtain ⟨layout, contents, count'⟩ := @rechain_spec config _ _ atoms .mactive .mold layout
    contents x rfl rfl rfl
  have counted := count'.trans count
  unfold Store.resetBucket
  cases trim with
  | false =>
    refine ⟨_, layout, contents, fun _ => ⟨congrFun counted x, ?_, ?_⟩, fun y ne =>
      ⟨congrFun counted y, fun lane => ?_⟩⟩
    · simp
    · simp
    · simp [ne]
  | true =>
    refine (trimLoop_spec config x _ layout contents ?_).mono ?_
    · have before := spared rfl
      unfold Store.spares at before ⊢
      rw [counted]
      simpa using before
    · rintro s' ⟨shelf', layout', contents', _, same⟩
      refine ⟨shelf', layout', contents', (fun wrong => nomatch wrong),
        fun y ne => Kept.trans ⟨congrFun counted y, fun lane => ?_⟩ (same y ne)⟩
      simp [ne]

theorem cacheReset_spec (layout : Layout s shelf) (contents : Contents config s shelf atoms)
    (trim : Bool) (spared : trim = true → ∀ x < config.cwidth,
      s.spares config x (shelf (x, .active) ++ shelf (x, .old))) :
    Safe (fun s' => ∃ shelf', Layout s' shelf' ∧ Contents config s' shelf' atoms ∧
        (trim = false → ∀ x < config.cwidth, Rechained s s' shelf shelf' x))
      (s.cacheReset config trim) := by
  have rounds := @Safe.foldlM _ (fun n (s' : Store) => ∃ shelf', Layout s' shelf' ∧
      Contents config s' shelf' atoms ∧
      (trim = false → ∀ x < n, Rechained s s' shelf shelf' x) ∧
      ∀ y, n ≤ y → Kept s s' shelf shelf' y)
    (Store.resetBucket config trim) s
    ⟨shelf, layout, contents, by simp, fun y _ => .refl s shelf y⟩ config.cwidth (by
      rintro n below t ⟨shelf₁, layout₁, contents₁, chained, ahead⟩
      have here := ahead n (Nat.le_refl n)
      refine (resetBucket_spec layout₁ contents₁ trim n fun trims => ?_).mono ?_
      · rw [here.2, here.2]
        exact here.spares (spared trims n below)
      · rintro t' ⟨shelf₂, layout₂, contents₂, now, beside⟩
        refine ⟨shelf₂, layout₂, contents₂, fun trims x le => ?_, fun y le => ?_⟩
        · rcases Nat.lt_succ_iff_lt_or_eq.mp le with lt | rfl
          · obtain ⟨count, old, mold⟩ := chained trims x lt
            have still := beside x (Nat.ne_of_lt lt)
            exact ⟨still.1.trans count, (still.2 _).trans old, (still.2 _).trans mold⟩
          · obtain ⟨count, old, mold⟩ := now trims
            simp only [here.2] at old mold
            exact ⟨count.trans here.1, old, mold⟩
        · exact (ahead y (Nat.le_of_succ_le le)).trans (beside y (Nat.ne_of_gt le)))
  refine rounds.mono ?_
  rintro s' ⟨shelf', layout', contents', chained, _⟩
  exact ⟨shelf', layout', contents', chained⟩

theorem cacheWrite_spec (layout : Layout s shelf) (contents : Contents config s shelf atoms)
    {q : Place} (modified : q.2.clean = false) {rest : List Addr} {start : Option Addr}
    {limit : Nat}
    (chain : Chain s.links.next start rest) (within : ∀ c ∈ rest, c ∈ shelf q)
    (hlt : rest.length < limit) :
    Safe (fun s' => ∃ disk, s' = { s with disk := disk } ∧
        (∀ c ∈ rest, ∀ o, s.op c = some o → OnFile disk o) ∧
        ∀ {o : Obj}, o.atrs = atoms o.name → OnFile s.disk o → OnFile disk o)
      (Store.cacheWrite limit start s) := by
  induction rest generalizing s start limit with
  | nil =>
    obtain ⟨limit, rfl⟩ := Nat.exists_eq_succ_of_ne_zero (Nat.ne_of_gt hlt)
    have none' : start = none := chain
    rw [none', Store.cacheWrite]
    exact ⟨s.disk, rfl, by simp, fun _ file => file⟩
  | cons cp rest ih =>
    obtain ⟨limit, rfl⟩ := Nat.exists_eq_succ_of_ne_zero (Nat.ne_of_gt (Nat.zero_lt_of_lt hlt))
    obtain ⟨rfl, tail⟩ := chain
    have mem := within cp (by simp)
    obtain ⟨o, here⟩ : ∃ o, s.op cp = some o := by
      cases here : s.op cp with
      | none =>
        have old := contents.filled mem here
        rw [old] at modified
        cases modified
      | some o => exact ⟨o, rfl⟩
    rw [Store.cacheWrite]
    refine (flush_spec here).bind ?_
    rintro t ⟨disk, file, others, rfl⟩
    have better : ∀ {o' : Obj}, o'.atrs = atoms o'.name → OnFile s.disk o' → OnFile disk o' :=
      better_of_flushed (contents.current mem here) file others
    have written : Contents config { s with disk := disk } shelf atoms :=
      contents.written rfl better
    have layout' : Layout { s with disk := disk } shelf := layout.congr rfl rfl (Nat.le_refl _)
    refine (ih layout' written tail (fun c hin => within c (by simp [hin]))
      (Nat.lt_of_succ_lt_succ hlt)).mono ?_
    rintro t ⟨disk', rfl, all, better'⟩
    refine ⟨disk', rfl, fun c hin o' there => ?_, fun current pre =>
      better' current (better current pre)⟩
    rcases List.mem_cons.mp hin with rfl | hin
    · rw [here] at there
      rw [← Option.some.inj there]
      exact better' (contents.current mem here) file
    · exact all c hin o' there

def Dry (shelf : Place → List Addr) (x : Nat) : Prop :=
  shelf (x, .mold) = [] ∧ shelf (x, .mactive) = []

theorem cacheClean_spec (layout : Layout s shelf) (contents : Contents config s shelf atoms)
    (x : Nat) (mold : ∀ c ∈ shelf (x, .mold), ∀ o, s.op c = some o → OnFile s.disk o)
    (mactive : ∀ c ∈ shelf (x, .mactive), ∀ o, s.op c = some o → OnFile s.disk o) :
    ∃ shelf', Layout (s.cacheClean x) shelf' ∧ Contents config (s.cacheClean x) shelf' atoms ∧
      Dry shelf' x ∧ shelf' (x, .old) = shelf (x, .old) ++ shelf (x, .mold) ∧
      (s.cacheClean x).count x = s.count x ∧
      ∀ y ≠ x, Kept s (s.cacheClean x) shelf shelf' y := by
  obtain ⟨layout', contents', op, disk, count⟩ := @rejoin_spec config s shelf atoms .mold .old
    layout contents x (by decide) rfl mold
  obtain ⟨layout'', contents'', _, _, count'⟩ := @rejoin_spec config _ _ atoms .mactive .active
    layout' contents' x (by decide) rfl (by
      intro c mem o here
      rw [disk]
      exact mactive c (by simpa [Function.update_apply] using mem) o (op ▸ here))
  have counted := count'.trans count
  refine ⟨_, layout'', contents'', ?_, ?_, congrFun counted x, fun y ne =>
    ⟨congrFun counted y, fun lane => ?_⟩⟩
  · simp [Dry]
  · simp
  · simp [ne]

theorem syncBucket_spec (layout : Layout s shelf) (contents : Contents config s shelf atoms)
    (trim : Bool) (x : Nat)
    (spared : trim = true → s.spares config x (shelf (x, .old) ++ shelf (x, .mold))) :
    Safe (fun s' => ∃ shelf', Layout s' shelf' ∧ Contents config s' shelf' atoms ∧
        Dry shelf' x ∧ ∀ y ≠ x, Kept s s' shelf shelf' y)
      (Store.syncBucket config trim s x) := by
  have written := fun (t : Store) (layout : Layout t shelf) (contents : Contents config t shelf atoms)
      (lane : Lane) (modified : lane.clean = false) =>
    @cacheWrite_spec config t shelf atoms layout contents (x, lane) modified (shelf (x, lane))
      (t.chain (x, lane)).head (t.fresh + 1) (layout.holds (x, lane)).forward (fun c mem => mem)
      (Nat.lt_succ_of_le (layout.length_le (x, lane)))
  unfold Store.syncBucket
  refine (written s layout contents .mold rfl).bind ?_
  rintro t ⟨disk, rfl, mold, better⟩
  have layout' : Layout { s with disk := disk } shelf := layout.congr rfl rfl (Nat.le_refl _)
  have contents' : Contents config { s with disk := disk } shelf atoms :=
    contents.written rfl better
  refine (written _ layout' contents' .mactive rfl).bind ?_
  rintro t ⟨disk', rfl, mactive, better'⟩
  have layout'' : Layout { s with disk := disk' } shelf := layout.congr rfl rfl (Nat.le_refl _)
  have contents'' : Contents config { s with disk := disk' } shelf atoms :=
    contents'.written rfl better'
  obtain ⟨shelf', cleaned, kept, dry, old, counted, beside⟩ := cacheClean_spec layout''
    contents'' x (fun c mem o here => better' (contents.current mem here) (mold c mem o here))
    mactive
  cases trim with
  | false => exact ⟨shelf', cleaned, kept, dry, beside⟩
  | true =>
    refine (trimLoop_spec config x _ cleaned kept ?_).mono ?_
    · have before := spared rfl
      unfold Store.spares at before ⊢
      rwa [counted, old]
    · rintro s' ⟨shelf'', trimmed, kept', lanes, same⟩
      exact ⟨shelf'', trimmed, kept',
        ⟨(lanes _ (by decide)).trans dry.1, (lanes _ (by decide)).trans dry.2⟩, fun y ne =>
        (beside y ne).trans (same y ne)⟩

theorem cacheSync_spec (layout : Layout s shelf) (contents : Contents config s shelf atoms)
    (trim : Bool) (spared : trim = true → ∀ x < config.cwidth,
      s.spares config x (shelf (x, .active) ++ shelf (x, .old) ++
        (shelf (x, .mactive) ++ shelf (x, .mold)))) :
    Safe (fun s' => Transparent config s' atoms ∧
        ∀ name, OnFile s'.disk ⟨name, atoms name⟩)
      (s.cacheSync config trim) := by
  unfold Store.cacheSync
  refine (cacheReset_spec layout contents false fun wrong => nomatch wrong).bind ?_
  rintro s₁ ⟨shelf₁, layout₁, contents₁, chained⟩
  have rounds := @Safe.foldlM _ (fun n (s' : Store) => ∃ shelf', Layout s' shelf' ∧
      Contents config s' shelf' atoms ∧ (∀ y < n, Dry shelf' y) ∧
      ∀ y, n ≤ y → Kept s₁ s' shelf₁ shelf' y)
    (Store.syncBucket config trim) s₁
    ⟨shelf₁, layout₁, contents₁, by simp, fun y _ => .refl s₁ shelf₁ y⟩ config.cwidth (by
      rintro n below t ⟨shelf, layout, contents, dry, ahead⟩
      have here := ahead n (Nat.le_refl n)
      refine (syncBucket_spec layout contents trim n fun trims => ?_).mono ?_
      · obtain ⟨count, old, mold⟩ := chained rfl n below
        refine here.spares ?_
        rw [here.2, here.2, old, mold]
        have before := spared trims n below
        unfold Store.spares at before ⊢
        rwa [count]
      · rintro t' ⟨shelf', layout', contents', now, beside⟩
        refine ⟨shelf', layout', contents', fun y le => ?_, fun y le => ?_⟩
        · rcases Nat.lt_succ_iff_lt_or_eq.mp le with lt | rfl
          · have still := beside y (Nat.ne_of_lt lt)
            exact ⟨(still.2 _).trans (dry y lt).1, (still.2 _).trans (dry y lt).2⟩
          · exact now
        · exact (ahead y (Nat.le_of_succ_le le)).trans (beside y (Nat.ne_of_gt le)))
  refine rounds.mono ?_
  rintro t ⟨shelf, layout, contents, dry, _⟩
  refine ⟨⟨shelf, layout, contents⟩, fun name => ?_⟩
  by_cases uncached : Uncached t shelf name
  · exact contents.filed uncached
  · unfold Uncached at uncached
    push Not at uncached
    obtain ⟨q, cp, o, mem, here, rfl⟩ := uncached
    rw [← contents.held mem here]
    refine contents.clean mem here ?_
    -- every bucket with an object is among those synced
    have below : q.1 < config.cwidth := by
      rw [contents.bucketed mem here]
      exact Nat.mod_lt _ config.positive
    have empty := dry q.1 below
    obtain ⟨y, lane⟩ := q
    cases lane with
    | active => rfl
    | old => rfl
    | mactive =>
      rw [empty.2] at mem
      cases mem
    | mold =>
      rw [empty.1] at mem
      cases mem

def Blank (disk : Objname → Option (List Byte)) (s : Store) : Prop :=
  s.disk = disk ∧ ∃ shelf, Layout s shelf ∧
    ∀ {q cp}, cp ∈ shelf q → s.op cp = none ∧ q.2 = .old

variable {disk : Objname → Option (List Byte)}

theorem Blank.hold (blank : Blank disk s) (x : Nat) : Blank disk (s.hold x) := by
  obtain ⟨eq, shelf, layout, empty⟩ := blank
  have loose : ∀ p, s.fresh ∉ shelf p := fun p mem => Nat.lt_irrefl _ (layout.below mem)
  have grown : Layout { s.cacheRepl s.fresh none with fresh := s.fresh + 1 } shelf :=
    layout.congr rfl rfl (Nat.le_succ _)
  refine ⟨eq, _, grown.inshead loose (Nat.lt_succ_self _) (x, .old), fun {q cp} mem => ?_⟩
  have gone : ∀ {c}, (s.op c = none ∨ c = s.fresh) → (s.hold x).op c = none := by
    intro c either
    show update s.op s.fresh none c = none
    rw [Function.update_apply]
    grind
  by_cases here : q = (x, .old)
  · rw [here, update_self] at mem
    rcases List.mem_cons.mp mem with rfl | mem
    · exact ⟨gone (.inr rfl), by rw [here]⟩
    · exact ⟨gone (.inl (empty mem).1), by rw [here]⟩
  · rw [update_of_ne here] at mem
    exact ⟨gone (.inl (empty mem).1), (empty mem).2⟩

theorem Blank.rounds (blank : Blank disk s) (x n : Nat) :
    Blank disk ((List.range n).foldl (fun s _ => s.hold x) s) := by
  induction n with
  | zero => exact blank
  | succ n ih =>
    rw [List.range_succ, List.foldl_append]
    exact ih.hold x

theorem Blank.initBucket (blank : Blank disk s) (config : Config) (x : Nat) :
    Blank disk (Store.initBucket config s x) := by
  obtain ⟨eq, shelf, layout, empty⟩ := blank
  have start : Blank disk { s with count := update s.count x config.cdepth } :=
    ⟨eq, shelf, layout.congr rfl rfl (Nat.le_refl _), empty⟩
  exact start.rounds x config.cdepth

theorem cacheInit_blank (config : Config) (disk : Objname → Option (List Byte)) :
    Blank disk (Store.cacheInit config disk) := by
  unfold Store.cacheInit
  induction config.cwidth with
  | zero =>
    refine ⟨rfl, fun _ => [], ⟨fun _ => ⟨rfl, fun some' => absurd rfl some'⟩, fun _ _ _ => rfl,
      fun mem => ?_, fun mem => ?_⟩, fun mem => ?_⟩ <;> cases mem
  | succ n ih =>
    rw [List.range_succ, List.foldl_append]
    exact ih.initBucket config n

theorem cacheInit_spec (config : Config)
    (sound : ∀ name, Obj.Sound ⟨name, atoms name⟩) (file : ∀ name, OnFile disk ⟨name, atoms name⟩) :
    Transparent config (Store.cacheInit config disk) atoms := by
  obtain ⟨eq, shelf, layout, empty⟩ := cacheInit_blank config disk
  have onFile : ∀ name, OnFile (Store.cacheInit config disk).disk ⟨name, atoms name⟩ := by
    rw [eq]
    exact file
  have nothing : ∀ {q cp o}, cp ∈ shelf q → (Store.cacheInit config disk).op cp = some o → False := by
    intro q cp o mem here
    rw [(empty mem).1] at here
    cases here
  exact ⟨shelf, layout, sound, fun mem here => (nothing mem here).elim,
    fun mem here => (nothing mem here).elim, fun mem here => (nothing mem here).elim,
    fun mem _ => (empty mem).2, fun fst _ here => (nothing fst here).elim,
    fun {name} _ => onFile name⟩

abbrev Values := Objname → Attrnum → Option (List Byte)

namespace Values

/-- The values after an operation: a put sets one, a deletion clears one. -/
def after (values : Values) : Op → Values
  | .put nam obj => fun object attrnum =>
    if object = nam.object ∧ attrnum = nam.attrnum then some obj.chars else values object attrnum
  | .del nam => fun object attrnum =>
    if object = nam.object ∧ attrnum = nam.attrnum then none else values object attrnum
  | _ => values

/-- What the reads of a run should return: what was put last and not deleted since. -/
def answers : Values → List Op → List (Option (List Byte))
  | _, [] => []
  | values, .get nam :: ops => values nam.object nam.attrnum :: answers values ops
  | values, op :: ops => answers (values.after op) ops

end Values

/-- The file holds the values: every image is that of an object with exactly its attributes,
by increasing number, has the size computed for it, which is an `int`, and is read back as the
object; what has no image has no attributes. -/
def FileHolds (disk : Objname → Option (List Byte)) (values : Values) : Prop :=
  ∀ object, ∃ o : Obj, o.name = object ∧ o.Sound ∧
    (∀ attrnum, o.valueOf attrnum = values object attrnum) ∧
    match disk object with
    | none => o.atrs = []
    | some image => image = objtoFILE o ∧ image.length = objSiz o ∧ objSiz o < 2147483648 ∧
        objfromFILE image = some o

/-- Every chain of a bucket ends, and no two holders of its chains, or of any others, have the
same object. -/
def OneChain (s : Store) : Prop :=
  ∃ shelf : Place → List Addr, (∀ q, Chain s.links.next (s.chain q).head (shelf q)) ∧
    ∀ p q c d o o', c ∈ shelf p → d ∈ shelf q → s.op c = some o → s.op d = some o' →
      o.name = o'.name → p = q ∧ c = d

def Shows (atoms : Objname → List Attrib) (values : Values) : Prop :=
  ∀ object attrnum, Obj.valueOf ⟨object, atoms object⟩ attrnum = values object attrnum

variable {values : Values}

theorem Shows.changed {atoms' : Objname → List Attrib} {nam : Aname}
    {value : Option (List Byte)} (shows : Shows atoms values)
    (changed : Changed atoms atoms' nam value) :
    Shows atoms' fun object attrnum =>
      if object = nam.object ∧ attrnum = nam.attrnum then value else values object attrnum := by
  intro object attrnum
  by_cases here : object = nam.object
  · rw [here, changed.2, shows]
    simp
  · rw [changed.1 object here, shows]
    exact (if_neg fun both => here both.1).symm

theorem Shows.fileHolds (shows : Shows atoms values) (sound : ∀ name, Obj.Sound ⟨name, atoms name⟩)
    (file : ∀ name, OnFile disk ⟨name, atoms name⟩) : FileHolds disk values := by
  intro object
  refine ⟨⟨object, atoms object⟩, rfl, sound object, shows object, ?_⟩
  rcases file object with ⟨gone, empty⟩ | ⟨image, fits⟩
  · simp only at gone empty
    rw [gone]
    exact empty
  · simp only at image
    rw [image]
    exact ⟨rfl, objtoFILE_length (sound object), fits, objfromFILE_objtoFILE (sound object) fits⟩

theorem perform_spec (h : Transparent config s atoms) (shows : Shows atoms values) (op : Op)
    (spared : s.sparesBlock config op) :
    Safe (fun result => (∃ atoms', Transparent config result.1 atoms' ∧
          Shows atoms' (values.after op)) ∧ result.2 = values.answers [op] ∧
        ∀ trim, op = .sync trim → FileHolds result.1.disk (values.after op))
      (perform config s op) := by
  cases op with
  | get nam =>
    refine (cacheGet_spec h nam).bind fun result good => ?_
    refine ⟨⟨atoms, good.1, shows⟩, ?_, fun _ is => nomatch is⟩
    simp only [Values.answers, good.2]
    rw [shows]
  | put nam obj =>
    refine (cachePut_spec h nam obj).bind fun s' good => ?_
    obtain ⟨atoms', kept, changed⟩ := good
    exact ⟨⟨atoms', kept, shows.changed changed⟩, rfl, fun _ is => nomatch is⟩
  | del nam =>
    refine (cacheDel_spec h nam).bind fun s' good => ?_
    obtain ⟨atoms', kept, changed⟩ := good
    exact ⟨⟨atoms', kept, shows.changed changed⟩, rfl, fun _ is => nomatch is⟩
  | reset trim =>
    obtain ⟨shelf, layout, contents⟩ := h
    refine (cacheReset_spec layout contents trim ?_).bind ?_
    · rintro rfl x below
      simpa only [layout.holders_eq] using
        List.all_eq_true.mp spared x (List.mem_range.mpr below)
    · rintro s' ⟨shelf', layout', contents', _⟩
      exact ⟨⟨atoms, ⟨shelf', layout', contents'⟩, shows⟩, rfl, fun _ is => nomatch is⟩
  | sync trim =>
    obtain ⟨shelf, layout, contents⟩ := h
    refine (cacheSync_spec layout contents trim ?_).bind fun s' good => ?_
    · rintro rfl x below
      simpa only [layout.holders_eq] using
        List.all_eq_true.mp spared x (List.mem_range.mpr below)
    obtain ⟨kept, file⟩ := good
    have sound : ∀ name, Obj.Sound ⟨name, atoms name⟩ := by
      obtain ⟨_, _, contents⟩ := kept
      exact contents.sound
    exact ⟨⟨atoms, kept, shows⟩, rfl, fun _ _ => shows.fileHolds sound file⟩

theorem Values.answers_cons (values : Values) (op : Op) (ops : List Op) :
    values.answers (op :: ops) = values.answers [op] ++ (values.after op).answers ops := by
  cases op <;> rfl

theorem run_spec (h : Transparent config s atoms) (shows : Shows atoms values) (ops : List Op)
    (spared : s.runSpares config ops) :
    Safe (fun result => (∃ atoms', Transparent config result.1 atoms') ∧
        result.2 = values.answers ops ∧
        ∀ trim, ops.getLast? = some (.sync trim) →
          FileHolds result.1.disk (ops.foldl Values.after values))
      (run config s ops) := by
  induction ops generalizing s atoms values with
  | nil => exact ⟨⟨atoms, h⟩, rfl, by simp⟩
  | cons op rest ih =>
    rw [Store.runSpares, Bool.and_eq_true] at spared
    have performed := perform_spec h shows op spared.1
    rw [run]
    cases result : perform config s op with
    | error failure =>
      rw [result] at performed
      exact performed
    | ok done =>
      obtain ⟨middle, answer⟩ := done
      rw [result] at performed
      obtain ⟨⟨atoms', kept, shows'⟩, answered, synced⟩ := performed
      have later : middle.runSpares config rest := by simpa [result] using spared.2
      rw [Values.answers_cons]
      cases rest with
      | nil =>
        refine ⟨⟨atoms', kept⟩, ?_, fun trim is => ?_⟩
        · simpa [Values.answers] using answered
        · exact synced trim (Option.some.inj is)
      | cons next others =>
        refine (ih kept shows' later).bind ?_
        rintro ⟨last, answers⟩ ⟨kept', answered', synced'⟩
        refine ⟨kept', ?_, fun trim is => ?_⟩
        · simp only at answered answered'
          rw [← answered, ← answered']
        · rw [List.getLast?_cons_cons] at is
          exact synced' trim is

theorem Transparent.oneChain (h : Transparent config s atoms) : OneChain s := by
  obtain ⟨shelf, layout, contents⟩ := h
  refine ⟨shelf, fun q => (layout.holds q).forward, fun p q c d o o' fst snd here there eq => ?_⟩
  have equal := contents.single fst snd here there eq
  exact ⟨layout.apart fst (equal ▸ snd), equal⟩

/-- A cache over a file that holds some values shows these. -/
theorem FileHolds.transparent (stored : FileHolds disk values) (config : Config) :
    ∃ atoms, Transparent config (Store.cacheInit config disk) atoms ∧ Shows atoms values := by
  choose objects named sound shown image using stored
  have is name : objects name = ⟨name, (objects name).atrs⟩ :=
    congrArg (Obj.mk · (objects name).atrs) (named name)
  refine ⟨_, cacheInit_spec config (fun name => is name ▸ sound name) fun name => ?_,
    fun name => is name ▸ shown name⟩
  have written := image name
  cases there : disk name with
  | none =>
    rw [there] at written
    exact Or.inl ⟨there, written⟩
  | some bytes =>
    rw [there] at written
    refine Or.inr ⟨there.trans (congrArg some (written.1.trans (congrArg objtoFILE (is name)))), ?_⟩
    exact congrArg objSiz (is name) ▸ written.2.2.1

/-- The attribute store is a transparent map.  Over a file that holds some values, whatever
the width and the depth of the cache, a run none of whose trims comes to a holder of the first
block ends early only at an object that is too large to be written.  Otherwise every read answered
what was put last and not deleted since; no object is on two chains, or twice on one; and when the
run ends with a sync, the file holds the values. -/
theorem cache_transparent (config : Config) (disk : Objname → Option (List Byte)) (values : Values)
    (stored : FileHolds disk values) (ops : List Op)
    (spared : (Store.cacheInit config disk).runSpares config ops) :
    match run config (Store.cacheInit config disk) ops with
    | .error failure => ∃ o, failure = .unwritable o ∧ 2147483648 ≤ objSiz o
    | .ok (s, answers) => answers = values.answers ops ∧ OneChain s ∧
        ∀ trim, ops.getLast? = some (.sync trim) →
          FileHolds s.disk (ops.foldl Values.after values) := by
  obtain ⟨atoms, h, shows⟩ := stored.transparent config
  have ran := run_spec h shows ops spared
  cases result : run config (Store.cacheInit config disk) ops with
  | error failure =>
    rw [result] at ran
    exact ran
  | ok final =>
    rw [result] at ran
    obtain ⟨⟨_, kept⟩, answered, synced⟩ := ran
    exact ⟨answered, kept.oneChain, synced⟩

theorem fileHolds_empty : FileHolds (fun _ => none) fun _ _ => none := fun object =>
  ⟨⟨object, []⟩, rfl, ⟨List.Pairwise.nil, by simp⟩, fun _ => rfl, rfl⟩

/-- Two buckets of depth 1. -/
def narrow : Config := ⟨2, 1, by decide⟩

def letter : Text := ⟨[104], by decide, by decide⟩

/-- The objects 1 and 3 share a bucket, and the holder that is freed is the second one. -/
def reread : List Op :=
  [.put ⟨1, 7⟩ letter, .put ⟨3, 7⟩ letter, .sync false, .get ⟨1, 7⟩, .reset true, .get ⟨3, 7⟩,
    .sync false]

theorem cache_transparent_reread :
    match run narrow (Store.cacheInit narrow fun _ => none) reread with
    | .error failure => ∃ o, failure = .unwritable o ∧ 2147483648 ≤ objSiz o
    | .ok (s, answers) => answers = [some [104], some [104]] ∧ OneChain s ∧
        ∀ trim, reread.getLast? = some (.sync trim) →
          FileHolds s.disk (reread.foldl Values.after fun _ _ => none) :=
  cache_transparent narrow (fun _ => none) (fun _ _ => none) fileHolds_empty reread (by decide)

/-- When the objects 1 and 3 are only put, the trim of `cache_sync` comes to the holder that
`cache_init` gave their bucket. -/
theorem cache_trim_frees_block :
    FileHolds (fun _ => none) (fun _ _ => none) ∧
      match run narrow (Store.cacheInit narrow fun _ => none)
          [.put ⟨1, 7⟩ letter, .put ⟨3, 7⟩ letter, .sync true] with
      | .error failure => failure = .carved 1
      | .ok _ => False :=
  ⟨fileHolds_empty, rfl⟩

end BattletechMux.Cache
