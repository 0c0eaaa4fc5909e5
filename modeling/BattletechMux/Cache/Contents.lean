/-
Module: BattletechMux.Cache.Contents
Purpose: What the holders of the object cache hold: every object at most once, in its bucket, with
  its present attributes; on the clean chains it is as in the file, and so is every object outside
  the cache.
-/
import BattletechMux.Cache.Store

namespace BattletechMux.Cache

open Function (update update_self update_of_ne)
open ByteCodec (Byte)
open LinkedMemory (Links Deque Chain)

def Lane.clean : Lane → Bool
  | .active => true
  | .old => true
  | _ => false

def OnFile (disk : Objname → Option (List Byte)) (o : Obj) : Prop :=
  disk o.name = none ∧ o.atrs = [] ∨ disk o.name = some (objtoFILE o) ∧ objSiz o < 2147483648

def Safe {α : Type} (good : α → Prop) : Except Failure α → Prop
  | .ok result => good result
  | .error failure => ∃ o, failure = .unwritable o ∧ 2147483648 ≤ objSiz o

theorem Safe.bind {α β : Type} {good : α → Prop} {better : β → Prop} {fst : Except Failure α}
    {next : α → Except Failure β} (safe : Safe good fst)
    (later : ∀ result, good result → Safe better (next result)) :
    Safe better (fst >>= next) := by
  cases fst with
  | error failure => exact safe
  | ok result => exact later result safe

theorem Safe.mono {α : Type} {good better : α → Prop} {result : Except Failure α}
    (safe : Safe good result) (weaker : ∀ a, good a → better a) : Safe better result := by
  cases result with
  | error failure => exact safe
  | ok a => exact weaker a safe

theorem Safe.foldlM {α : Type} {good : Nat → α → Prop} {body : α → Nat → Except Failure α}
    {s : α} (start : good 0 s) (n : Nat)
    (round : ∀ m < n, ∀ s, good m s → Safe (good (m + 1)) (body s m)) :
    Safe (good n) ((List.range n).foldlM body s) := by
  induction n with
  | zero => exact start
  | succ n ih =>
    rw [List.range_succ, List.foldlM_append]
    refine (ih fun m below => round m (Nat.lt_succ_of_lt below)).bind fun middle kept => ?_
    refine (round n (Nat.lt_succ_self n) middle kept).bind fun last done => ?_
    exact done

def Uncached (s : Store) (shelf : Place → List Addr) (name : Objname) : Prop :=
  ∀ {q cp o}, cp ∈ shelf q → s.op cp = some o → o.name ≠ name

/-- The holders hold the objects whose present attributes are `atoms`. -/
structure Contents (config : Config) (s : Store) (shelf : Place → List Addr)
    (atoms : Objname → List Attrib) : Prop where
  sound : ∀ name, Obj.Sound ⟨name, atoms name⟩
  bucketed : ∀ {q cp o}, cp ∈ shelf q → s.op cp = some o → q.1 = bucket config o.name
  current : ∀ {q cp o}, cp ∈ shelf q → s.op cp = some o → o.atrs = atoms o.name
  clean : ∀ {q cp o}, cp ∈ shelf q → s.op cp = some o → q.2.clean → OnFile s.disk o
  filled : ∀ {q cp}, cp ∈ shelf q → s.op cp = none → q.2 = .old
  single : ∀ {p q c d o o'}, c ∈ shelf p → d ∈ shelf q → s.op c = some o → s.op d = some o' →
    o.name = o'.name → c = d
  filed : ∀ {name}, Uncached s shelf name → OnFile s.disk ⟨name, atoms name⟩

variable {config : Config} {s s' : Store} {shelf shelf' : Place → List Addr}
  {atoms : Objname → List Attrib} {q : Place} {cp : Addr}

theorem dddbGet_spec {disk : Objname → Option (List Byte)} {o : Obj} (sound : o.Sound)
    (file : OnFile disk o) :
    dddbGet disk o.name = .ok none ∧ o.atrs = [] ∨ dddbGet disk o.name = .ok (some o) := by
  unfold dddbGet
  rcases file with ⟨gone, empty⟩ | ⟨image, fits⟩
  · rw [gone]
    exact Or.inl ⟨rfl, empty⟩
  · rw [image]
    simp [objfromFILE_objtoFILE sound fits]

namespace Contents

section

variable (contents : Contents config s shelf atoms)
include contents

theorem held {o : Obj} (mem : cp ∈ shelf q) (here : s.op cp = some o) :
    o = ⟨o.name, atoms o.name⟩ := by
  rw [← contents.current mem here]

theorem rearrange (op : ∀ {q cp}, cp ∈ shelf' q → s'.op cp = s.op cp) (disk : s'.disk = s.disk)
    (back : ∀ {q cp}, cp ∈ shelf' q → ∃ lane, cp ∈ shelf (q.1, lane) ∧
      (s.op cp = none → lane = .old → q.2 = .old) ∧
      (q.2.clean → lane.clean ∨ ∀ o, s.op cp = some o → OnFile s.disk o))
    (kept : ∀ {q cp o}, cp ∈ shelf q → s.op cp = some o → OnFile s.disk o ∨ ∃ p, cp ∈ shelf' p) :
    Contents config s' shelf' atoms where
  sound := contents.sound
  bucketed {q cp o} mem here := by
    obtain ⟨lane, old, _, _⟩ := back mem
    have placed := contents.bucketed old ((op mem).symm.trans here)
    exact placed
  current {q cp o} mem here := by
    obtain ⟨lane, old, _, _⟩ := back mem
    exact contents.current old ((op mem).symm.trans here)
  clean {q cp o} mem here clean := by
    obtain ⟨lane, old, _, cleaned⟩ := back mem
    have pre := (op mem).symm.trans here
    rw [disk]
    rcases cleaned clean with was | written
    · exact contents.clean old pre was
    · exact written o pre
  filled {q cp} mem here := by
    obtain ⟨lane, old, stays, _⟩ := back mem
    have pre := (op mem).symm.trans here
    exact stays pre (contents.filled old pre)
  single {p q c d o o'} fst snd here there eq := by
    obtain ⟨lane, old, _, _⟩ := back fst
    obtain ⟨lane', old', _, _⟩ := back snd
    exact contents.single old old' ((op fst).symm.trans here) ((op snd).symm.trans there) eq
  filed {name} uncached := by
    rw [disk]
    by_cases gone : Uncached s shelf name
    · exact contents.filed gone
    · unfold Uncached at gone
      push Not at gone
      obtain ⟨q, cp, o, mem, here, named⟩ := gone
      rcases kept mem here with written | ⟨p, stays⟩
      · rw [contents.held mem here, named] at written
        exact written
      · exact absurd named (uncached stays ((op stays).trans here))

theorem modify {o o' : Obj} (mem : cp ∈ shelf q)
    (here : s.op cp = some o) (modified : q.2.clean = false) (named : o'.name = o.name)
    (sound : o'.Sound) (apart : ∀ {p p' c}, c ∈ shelf p → c ∈ shelf p' → p = p') :
    Contents config (s.cacheRepl cp (some o')) shelf (update atoms o.name o'.atrs) := by
  have op : ∀ c x, (s.cacheRepl cp (some o')).op c = some x →
      c = cp ∧ x = o' ∨ c ≠ cp ∧ s.op c = some x := by
    intro c x h
    by_cases is : c = cp
    · rw [is] at h
      simp only [Store.cacheRepl, update_self, Option.some.injEq] at h
      exact Or.inl ⟨is, h.symm⟩
    · simp only [Store.cacheRepl, update_of_ne is] at h
      exact Or.inr ⟨is, h⟩
  have other : ∀ {p c x}, c ∈ shelf p → c ≠ cp → s.op c = some x → x.name ≠ o.name :=
    fun hin ne h eq => ne (contents.single hin mem h here eq)
  refine ⟨fun name => ?_, fun {p c x} hin h => ?_, fun {p c x} hin h => ?_,
    fun {p c x} hin h clean => ?_, fun {p c} hin empty => ?_,
    fun {p p' c d x y} fst snd hc hd eq => ?_, fun {name} uncached => ?_⟩
  · by_cases is : name = o.name
    · rw [is, update_self, ← named]
      exact sound
    · rw [update_of_ne is]
      exact contents.sound name
  · rcases op c x h with ⟨rfl, rfl⟩ | ⟨ne, was⟩
    · rw [named, apart hin mem]
      exact contents.bucketed mem here
    · exact contents.bucketed hin was
  · rcases op c x h with ⟨rfl, rfl⟩ | ⟨ne, was⟩
    · rw [named, update_self]
    · rw [update_of_ne (other hin ne was)]
      exact contents.current hin was
  · rcases op c x h with ⟨rfl, rfl⟩ | ⟨ne, was⟩
    · rw [apart hin mem, modified] at clean
      cases clean
    · exact contents.clean hin was clean
  · by_cases is : c = cp
    · rw [is] at empty
      simp [Store.cacheRepl] at empty
    · simp only [Store.cacheRepl, update_of_ne is] at empty
      exact contents.filled hin empty
  · rcases op c x hc with ⟨rfl, rfl⟩ | ⟨ne, was⟩ <;>
      rcases op d y hd with ⟨rfl, rfl⟩ | ⟨different', was'⟩
    · rfl
    · exact absurd (eq.symm.trans named) (other snd different' was')
    · exact absurd (eq.trans named) (other fst ne was)
    · exact contents.single fst snd was was' eq
  · have not : name ≠ o.name := by
      rintro rfl
      refine uncached mem ?_ named
      simp [Store.cacheRepl]
    rw [update_of_ne not]
    refine contents.filed fun {p c x} hin was => ?_
    by_cases is : c = cp
    · rw [is, here] at was
      rw [← Option.some.inj was]
      exact Ne.symm not
    · exact uncached hin (by simp only [Store.cacheRepl, update_of_ne is]; exact was)

theorem shelve {o : Obj} (loose : ∀ p, cp ∉ shelf p)
    (uncached : Uncached s shelf o.name) (place : q.1 = bucket config o.name) (sound : o.Sound)
    (clean : q.2.clean → OnFile s.disk o) (op : s'.op = update s.op cp (some o))
    (disk : s'.disk = s.disk) :
    Contents config s' (update shelf q (cp :: shelf q)) (update atoms o.name o.atrs) := by
  have mem : ∀ {p c}, c ∈ update shelf q (cp :: shelf q) p →
      c = cp ∧ p = q ∨ c ≠ cp ∧ c ∈ shelf p := by
    intro p c hin
    by_cases is : c = cp
    · rw [is] at hin
      by_cases here : p = q
      · exact Or.inl ⟨is, here⟩
      · rw [update_of_ne here] at hin
        exact absurd hin (loose p)
    · refine Or.inr ⟨is, ?_⟩
      by_cases here : p = q
      · rw [here, update_self] at hin
        rw [here]
        exact List.mem_of_ne_of_mem is hin
      · rwa [update_of_ne here] at hin
  have new : s'.op cp = some o := by rw [op, update_self]
  have kept : ∀ {c}, c ≠ cp → s'.op c = s.op c := fun is => by rw [op, update_of_ne is]
  refine ⟨fun name => ?_, fun {p c x} hin h => ?_, fun {p c x} hin h => ?_,
    fun {p c x} hin h cleaned => ?_, fun {p c} hin empty => ?_,
    fun {p p' c d x y} fst snd hc hd eq => ?_, fun {name} gone => ?_⟩
  · by_cases is : name = o.name
    · rw [is, update_self]
      exact sound
    · rw [update_of_ne is]
      exact contents.sound name
  · rcases mem hin with ⟨rfl, rfl⟩ | ⟨ne, hin⟩
    · rw [new] at h
      rw [← Option.some.inj h]
      exact place
    · exact contents.bucketed hin ((kept ne).symm.trans h)
  · rcases mem hin with ⟨rfl, rfl⟩ | ⟨ne, hin⟩
    · rw [new] at h
      rw [← Option.some.inj h, update_self]
    · have was := (kept ne).symm.trans h
      rw [update_of_ne (uncached hin was)]
      exact contents.current hin was
  · rw [disk]
    rcases mem hin with ⟨rfl, rfl⟩ | ⟨ne, hin⟩
    · rw [new] at h
      rw [← Option.some.inj h]
      exact clean cleaned
    · exact contents.clean hin ((kept ne).symm.trans h) cleaned
  · rcases mem hin with ⟨rfl, rfl⟩ | ⟨ne, hin⟩
    · rw [new] at empty
      cases empty
    · exact contents.filled hin ((kept ne).symm.trans empty)
  · rcases mem fst with ⟨rfl, rfl⟩ | ⟨ne, inFirst⟩ <;>
      rcases mem snd with ⟨rfl, rfl⟩ | ⟨different', inSecond⟩
    · rfl
    · rw [new] at hc
      rw [← Option.some.inj hc] at eq
      exact absurd eq.symm (uncached inSecond ((kept different').symm.trans hd))
    · rw [new] at hd
      rw [← Option.some.inj hd] at eq
      exact absurd eq (uncached inFirst ((kept ne).symm.trans hc))
    · exact contents.single inFirst inSecond ((kept ne).symm.trans hc)
        ((kept different').symm.trans hd) eq
  · have not : name ≠ o.name := by
      rintro rfl
      exact @gone q cp o (by rw [update_self]; exact List.mem_cons_self) new rfl
    rw [disk, update_of_ne not]
    refine contents.filed fun {p c x} hin was => ?_
    have ne : c ≠ cp := fun eq => loose p (eq ▸ hin)
    refine @gone p c x ?_ ((kept ne).trans was)
    by_cases here : p = q
    · rw [here, update_self]
      exact List.mem_cons_of_mem _ (here ▸ hin)
    · rwa [update_of_ne here]

theorem written (op : s'.op = s.op)
    (better : ∀ {o : Obj}, o.atrs = atoms o.name → OnFile s.disk o → OnFile s'.disk o) :
    Contents config s' shelf atoms where
  sound := contents.sound
  bucketed mem here := contents.bucketed mem (op ▸ here)
  current mem here := contents.current mem (op ▸ here)
  clean mem here clean :=
    better (contents.current mem (op ▸ here)) (contents.clean mem (op ▸ here) clean)
  filled mem here := contents.filled mem (op ▸ here)
  single fst snd here there eq :=
    contents.single fst snd (op ▸ here) (op ▸ there) eq
  filed uncached :=
    better rfl (contents.filed fun mem here => uncached mem (op.symm ▸ here))

theorem drop (layout : Layout s shelf) {init : List Addr} (split : shelf q = init ++ [cp])
    (file : ∀ o, s.op cp = some o → OnFile s.disk o) (op : ∀ c ≠ cp, s'.op c = s.op c)
    (disk : s'.disk = s.disk) :
    Contents config s' (update shelf q init) atoms ∧ (∀ p, cp ∉ update shelf q init p) ∧
      ∀ name, Uncached s shelf name → Uncached s' (update shelf q init) name := by
  have without : ∀ {p c}, c ∈ update shelf q init p ↔ c ∈ shelf p ∧ c ≠ cp := by
    intro p c
    have removed := @Layout.mem_without s shelf q cp init [] layout split p c
    rwa [List.append_nil] at removed
  refine ⟨contents.rearrange (fun {p c} mem => op c (without.mp mem).2) disk ?_ ?_,
    fun p mem => (without.mp mem).2 rfl, fun _ uncached p c o mem here => ?_⟩
  · exact fun {p c} mem => ⟨p.2, (without.mp mem).1, fun _ old => old, fun clean => .inl clean⟩
  · intro p c o mem here
    by_cases is : c = cp
    · exact Or.inl (file o (is ▸ here))
    · exact Or.inr ⟨p, without.mpr ⟨mem, is⟩⟩
  · have hin := without.mp mem
    exact uncached hin.1 ((op c hin.2).symm.trans here)

end

end Contents

/-- What `flush` makes of the file. -/
def flushed (disk : Objname → Option (List Byte)) (o : Obj) :
    Except Failure (Objname → Option (List Byte)) :=
  if o.atrs = [] then .ok (dddbDel disk o.name) else dddbPut disk o

theorem flush_eq {o : Obj} (here : s.op cp = some o) :
    s.flush cp = (flushed s.disk o).map fun disk => { s with disk := disk } := by
  unfold Store.flush flushed
  simp only [here]
  split
  · rfl
  · cases dddbPut s.disk o <;> rfl

theorem flushed_spec (disk : Objname → Option (List Byte)) (o : Obj) :
    Safe (fun disk' => OnFile disk' o ∧ ∀ name ≠ o.name, disk' name = disk name)
      (flushed disk o) := by
  unfold flushed
  by_cases empty : o.atrs = []
  · rw [if_pos empty]
    exact ⟨Or.inl ⟨update_self .., empty⟩, fun name ne =>
      update_of_ne ne ..⟩
  · rw [if_neg empty, dddbPut]
    by_cases fits : objSiz o < 2147483648
    · rw [if_pos fits]
      exact ⟨Or.inr ⟨update_self .., fits⟩, fun name ne =>
        update_of_ne ne ..⟩
    · rw [if_neg fits]
      exact ⟨o, rfl, Nat.le_of_not_lt fits⟩

theorem flush_spec {o : Obj} (here : s.op cp = some o) :
    Safe (fun s' => ∃ disk, OnFile disk o ∧ (∀ name ≠ o.name, disk name = s.disk name) ∧
      s' = { s with disk := disk }) (s.flush cp) := by
  have safe := flushed_spec s.disk o
  rw [flush_eq here]
  cases result : flushed s.disk o with
  | error failure =>
    rw [result] at safe
    exact safe
  | ok disk =>
    rw [result] at safe
    exact ⟨disk, safe.1, safe.2, rfl⟩

theorem better_of_flushed {disk disk' : Objname → Option (List Byte)} {o : Obj}
    (current : o.atrs = atoms o.name) (file : OnFile disk' o)
    (others : ∀ name ≠ o.name, disk' name = disk name) {o' : Obj}
    (current' : o'.atrs = atoms o'.name) (pre : OnFile disk o') : OnFile disk' o' := by
  by_cases eq : o'.name = o.name
  · have is : o' = o := by
      cases o
      cases o'
      simp_all
    exact is ▸ file
  · unfold OnFile
    rw [others _ eq]
    exact pre

theorem getFreeEntry_spec (layout : Layout s shelf) (contents : Contents config s shelf atoms)
    (x : Nat) :
    Safe (fun result => ∃ shelf', Layout result.1 shelf' ∧
        Contents config result.1 shelf' atoms ∧ (∀ q, result.2 ∉ shelf' q) ∧
        result.2 < result.1.fresh ∧
        ∀ name, Uncached s shelf name → Uncached result.1 shelf' name)
      (s.getFreeEntry x) := by
  have last : ∀ {lane : Lane} {cp}, lane.inactive = true → (s.chain (x, lane)).tail = some cp →
      ∃ init, shelf (x, lane) = init ++ [cp] := by
    intro lane cp inactive tail
    have some' : shelf (x, lane) ≠ [] := fun empty => by
      rw [layout.closed (x, lane) inactive empty] at tail
      cases tail
    rw [(layout.holds (x, lane)).tail_eq some'] at tail
    exact List.getLast?_eq_some_iff.mp tail
  unfold Store.getFreeEntry
  cases oldTail : (s.chain (x, .old)).tail with
  | some cp =>
    obtain ⟨init, split⟩ := last rfl oldTail
    have mem : cp ∈ shelf (x, .old) := by simp [split]
    have dropped := @Contents.drop _ s ((s.unlinkTail (x, .old) cp).cacheRepl cp none) _ _ _ _
      contents layout _ split (fun o here => contents.clean mem here rfl)
      (fun c ne => update_of_ne ne ..) rfl
    exact ⟨_, (layout.unlinkTail split).congr rfl rfl (Nat.le_refl _), dropped.1, dropped.2.1,
      layout.below mem, dropped.2.2⟩
  | none =>
    cases moldTail : (s.chain (x, .mold)).tail with
    | some cp =>
      obtain ⟨init, split⟩ := last rfl moldTail
      have mem : cp ∈ shelf (x, .mold) := by simp [split]
      obtain ⟨o, here⟩ : ∃ o, s.op cp = some o := by
        cases here : s.op cp with
        | none => cases contents.filled mem here
        | some o => exact ⟨o, rfl⟩
      refine (@flush_spec (s.unlinkTail (x, .mold) cp) cp o here).bind ?_
      rintro t ⟨disk, file, others, rfl⟩
      have written : Contents config { s with disk := disk } shelf atoms :=
        contents.written rfl (better_of_flushed (contents.current mem here) file others)
      have dropped := @Contents.drop _ { s with disk := disk }
        (({ s.unlinkTail (x, .mold) cp with disk := disk } : Store).cacheRepl cp none)
        _ _ _ _ written (layout.congr rfl rfl (Nat.le_refl _)) _ split
        (fun o' there => Option.some.inj (here.symm.trans there) ▸ file)
        (fun c ne => update_of_ne ne ..) rfl
      exact ⟨_, (layout.unlinkTail split).congr rfl rfl (Nat.le_refl _), dropped.1,
        dropped.2.1, layout.below mem, dropped.2.2⟩
    | none =>
      have old : ∀ {q c}, c ∈ shelf q → c ≠ s.fresh := fun mem =>
        Nat.ne_of_lt (layout.below mem)
      refine ⟨shelf, layout.congr rfl rfl (Nat.le_succ _), ?_, fun q mem => old mem rfl,
        Nat.lt_succ_self _, fun name uncached q c o mem here => ?_⟩
      · refine contents.rearrange (fun mem => update_of_ne (old mem) ..) rfl ?_ ?_
        · exact fun {p c} mem => ⟨p.2, mem, fun _ is => is, fun clean => .inl clean⟩
        · exact fun {p c o} mem _ => Or.inr ⟨p, mem⟩
      · refine uncached mem ?_
        rw [← here]
        exact (update_of_ne (old mem) ..).symm

theorem namecmp_iff {object : Objname} :
    s.namecmp cp object = true ↔ ∃ o, s.op cp = some o ∧ o.name = object := by
  unfold Store.namecmp
  cases s.op cp <;> simp

theorem locate_lanes (layout : Layout s shelf) (x : Nat) (object : Objname) (lanes : List Lane) :
    (s.locate x object lanes = .ok none ∧
        ∀ lane ∈ lanes, ∀ cp ∈ shelf (x, lane), s.namecmp cp object = false) ∨
      ∃ lane, ∃ cp ∈ shelf (x, lane), s.locate x object lanes = .ok (some (lane, cp)) ∧
        s.namecmp cp object = true := by
  induction lanes with
  | nil => exact Or.inl ⟨rfl, by simp⟩
  | cons lane rest ih =>
    rcases layout.search_spec (x, lane) object with ⟨passed, nowhere⟩ | ⟨cp, mem, hf, is⟩
    · have next : s.locate x object (lane :: rest) = s.locate x object rest := by
        rw [Store.locate, passed]
        rfl
      rw [next]
      refine ih.imp_left fun missing => ⟨missing.1, fun o hin => ?_⟩
      rcases List.mem_cons.mp hin with rfl | hin
      · exact nowhere
      · exact missing.2 o hin
    · refine Or.inr ⟨lane, cp, mem, ?_, is⟩
      rw [Store.locate, hf]
      rfl

theorem locate_spec (layout : Layout s shelf) (contents : Contents config s shelf atoms)
    (object : Objname) :
    (s.locate (bucket config object) object Store.lanes = .ok none ∧ Uncached s shelf object) ∨
      ∃ lane, ∃ cp ∈ shelf (bucket config object, lane),
        s.locate (bucket config object) object Store.lanes = .ok (some (lane, cp)) ∧
          s.op cp = some ⟨object, atoms object⟩ := by
  refine (locate_lanes layout (bucket config object) object Store.lanes).imp ?_ ?_
  · rintro ⟨missing, nowhere⟩
    refine ⟨missing, fun {q cp o} mem here named => ?_⟩
    have place := contents.bucketed mem here
    rw [named] at place
    have every : q.2 ∈ Store.lanes := by
      cases q.2 <;> decide
    have not := nowhere q.2 every cp (by rw [← place]; exact mem)
    rw [namecmp_iff.mpr ⟨o, here, named⟩] at not
    cases not
  · rintro ⟨lane, cp, mem, hf, is⟩
    obtain ⟨o, here, named⟩ := namecmp_iff.mp is
    refine ⟨lane, cp, mem, hf, ?_⟩
    rw [here, contents.held mem here, named]

end BattletechMux.Cache
