/-
Module: BattletechMux.Terrain.Restoration
Purpose: What decorations do to a map, hex by hex: the ground, and what covers it.
-/
import BattletechMux.Terrain.Decoration

namespace BattletechMux.Terrain

open List hiding map map_map
open Option hiding map map_map

open Function (update update_self update_of_ne)
open MapFile (CChar fire smoke grassland rough heavyForest lightForest)

variable {width height : Nat}

/-- What a map is like below its decorations, and the decorations. -/
structure Land (width height : Nat) where
  ground : Hex width height → CChar
  elevation : Hex width height → CChar
  cover : Hex width height → Option (DecType × CChar)

namespace Land

def uncover (l : Land width height) (hex : Hex width height) : Land width height :=
  { l with cover := update l.cover hex none }

def remove (l : Land width height) (hex : Hex width height) (type : DecType) : Land width height :=
  if (l.cover hex).map Prod.fst = some type then l.uncover hex else l

def place (l : Land width height) (hex : Hex width height) (type : DecType) (data : CChar) :
    Land width height :=
  { l with cover := update l.cover hex (some (type, data)) }

/-- A decoration comes to its end; a fire has burnt the forest below it. -/
def expire (l : Land width height) (hex : Hex width height) (handler : Handler) (number : Nat) :
    Land width height :=
  let bare := l.uncover hex
  if handler = .fireDissipation ∧ isForest (l.ground hex) = true then
    { bare with ground := update l.ground hex (DecMap.burnt number) }
  else bare

def after (l : Land width height) (map : DecMap width height) : Op width height → Land width height
  | .add hex type data _ => l.place hex type data
  | .del hex tt => l.remove hex tt
  | .event ptr handler number =>
    if handler = .fireSpreading then l
    else match (map.mapobj handler.type).find? (·.ptr = ptr) with
      | some o => l.expire o.hex handler number
      | none => l

end Land

structure Covers (map : DecMap width height) (l : Land width height) : Prop where
  elevation : map.elevation = l.elevation
  ptrs : ∀ type, ((map.mapobj type).map Mapobj.ptr).Nodup
  apart : ∀ type m type' m', m ∈ map.mapobj type → m' ∈ map.mapobj type' →
    m.ptr = m'.ptr ∨ m.hex = m'.hex → type = type' ∧ m = m'
  unused : ∀ ptr ∈ map.free, ∀ type, ∀ m ∈ map.mapobj type, m.ptr ≠ ptr
  free : map.free.Nodup
  freeBelow : ∀ ptr ∈ map.free, ptr < map.fresh
  below : ∀ type, ∀ m ∈ map.mapobj type, m.ptr < map.fresh
  flag : ∀ type, ∀ m ∈ map.mapobj type, map.mapo = true
  events : (map.pending.map Prod.fst).Nodup
  live : ∀ e ∈ map.pending, ∃ m ∈ map.mapobj e.2.type, m.ptr = e.1
  covered : ∀ type, ∀ m ∈ map.mapobj type, ∃ c, l.cover m.hex = some (type, c) ∧
    m.datac = l.ground m.hex ∧ map.terrain m.hex = c
  bare : ∀ hex, (∀ type, ∀ m ∈ map.mapobj type, m.hex ≠ hex) →
    l.cover hex = none ∧ map.terrain hex = l.ground hex
  solid : ∀ hex, l.ground hex ≠ 0

namespace Covers

variable {map : DecMap width height} {l : Land width height} {type : DecType}
  {m : Mapobj width height} {hex : Hex width height}

theorem node_of_cover (covers : Covers map l) {c : CChar} (cover : l.cover hex = some (type, c)) :
    (∃ m ∈ map.mapobj type, m.hex = hex) ∧ map.terrain hex = c := by
  by_cases decorated : ∃ type', ∃ m ∈ map.mapobj type', m.hex = hex
  · obtain ⟨type', m, mem, rfl⟩ := decorated
    obtain ⟨c', cover', -, shown⟩ := covers.covered type' m mem
    rw [cover] at cover'
    cases cover'
    exact ⟨⟨m, mem, rfl⟩, shown⟩
  · have none' := covers.bare hex fun type' m mem eq => decorated ⟨type', m, mem, eq⟩
    rw [cover] at none'
    cases none'.1

theorem bare_of_cover (covers : Covers map l) (cover : l.cover hex = none) :
    (∀ type, ∀ m ∈ map.mapobj type, m.hex ≠ hex) ∧ map.terrain hex = l.ground hex := by
  have noNode : ∀ type, ∀ m ∈ map.mapobj type, m.hex ≠ hex := by
    rintro type m mem rfl
    obtain ⟨c, cover', -⟩ := covers.covered type m mem
    rw [cover] at cover'
    cases cover'
  exact ⟨noNode, (covers.bare hex noNode).2⟩

theorem find (covers : Covers map l) (mem : m ∈ map.mapobj type) :
    (map.mapobj type).find? (·.ptr = m.ptr) = some m := by
  cases hf : (map.mapobj type).find? (·.ptr = m.ptr) with
  | none =>
    have := find?_eq_none.mp hf m mem
    simp at this
  | some o =>
    have eq : o.ptr = m.ptr := by simpa using find?_some hf
    have member' := mem_of_find?_eq_some hf
    rw [(covers.apart type o type m member' mem (.inl eq)).2]

theorem at_hex (covers : Covers map l) (mem : m ∈ map.mapobj type) :
    (map.mapobj type).filter (·.hex = m.hex) = [m] := by
  have only : (map.mapobj type).filter (·.hex = m.hex) =
      (map.mapobj type).filter (·.ptr = m.ptr) := by
    refine filter_congr fun o inList => ?_
    have eq : o.hex = m.hex ↔ o.ptr = m.ptr := by
      constructor
      · intro hexes
        rw [(covers.apart type o type m inList mem (.inr hexes)).2]
      · intro ptrs
        rw [(covers.apart type o type m inList mem (.inl ptrs)).2]
    simp [eq]
  rw [only]
  obtain ⟨pre, post, split⟩ := append_of_mem mem
  have nodup := covers.ptrs type
  rw [split, map_append, map_cons, nodup_middle, nodup_cons, mem_append,
    not_or] at nodup
  have others : ∀ part : List (Mapobj width height), m.ptr ∉ part.map Mapobj.ptr →
      part.filter (·.ptr = m.ptr) = [] := by
    intro part absent
    rw [filter_eq_nil_iff]
    intro o inPart eq
    exact absent (mem_map.mpr ⟨o, inPart, by simpa using eq⟩)
  rw [split, filter_append, others pre nodup.1.1, filter_cons_of_pos (by simp),
    others post nodup.1.2, nil_append]

theorem at_hex_none (none' : ∀ m ∈ map.mapobj type, m.hex ≠ hex) :
    (map.mapobj type).filter (·.hex = hex) = [] := by
  simpa [filter_eq_nil_iff] using none'

theorem findDecorations_eq (covers : Covers map l) (hex : Hex width height) :
    map.findDecorations hex = if l.cover hex = none then 0 else l.ground hex := by
  unfold DecMap.findDecorations
  cases cover : l.cover hex with
  | none =>
    have none' : (decTypes.flatMap map.mapobj).find? (·.hex = hex) = none := by
      rw [find?_eq_none]
      intro m mem
      obtain ⟨type, -, inList⟩ := mem_flatMap.mp mem
      simpa using (covers.bare_of_cover cover).1 type m inList
    rw [none']
    rfl
  | some decoration =>
    obtain ⟨type, c⟩ := decoration
    obtain ⟨⟨m, mem, rfl⟩, -⟩ := covers.node_of_cover cover
    cases hf : (decTypes.flatMap map.mapobj).find? (·.hex = m.hex) with
    | none =>
      have absent := find?_eq_none.mp hf m
        (mem_flatMap.mpr ⟨type, by cases type <;> decide, mem⟩)
      simp at absent
    | some o =>
      obtain ⟨type', -, member'⟩ := mem_flatMap.mp (mem_of_find?_eq_some hf)
      have eq : o.hex = m.hex := by simpa using find?_some hf
      obtain ⟨c', -, datac, -⟩ := covers.covered type' o member'
      simp only [datac, eq]
      rfl

theorem underlying (covers : Covers map l) (hex : Hex width height) :
    map.mapUnderlyingTerrain hex = l.ground hex := by
  unfold DecMap.mapUnderlyingTerrain
  rw [covers.findDecorations_eq]
  cases cover : l.cover hex with
  | none => exact (covers.bare_of_cover cover).2
  | some decoration => exact if_pos (covers.solid hex)

theorem getRTerrain_eq (covers : Covers map l)
    (shows' : l.cover hex ≠ none → map.terrain hex = fire ∨ map.terrain hex = smoke) :
    map.getRTerrain hex = l.ground hex := by
  unfold DecMap.getRTerrain
  split_ifs with burning
  · exact covers.underlying hex
  · have none' : l.cover hex = none := by
      by_contra cover
      exact burning (shows' cover)
    exact (covers.bare_of_cover none').2

end Covers

/-- A map without one of its decorations; `stop` says whether its events are removed. -/
def DecMap.without (map : DecMap width height) (m : Mapobj width height) (type : DecType)
    (stop : Bool) : DecMap width height :=
  { map with
    mapobj := update map.mapobj type ((map.mapobj type).filter (·.ptr ≠ m.ptr))
    terrain := update map.terrain m.hex m.datac
    pending := if stop then map.pending.filter (·.1 ≠ m.ptr) else map.pending
    free := m.ptr :: map.free }

namespace Covers

variable {map : DecMap width height} {l : Land width height} {type : DecType}
  {m : Mapobj width height} {hex : Hex width height}

section

variable (covers : Covers map l) (mem : m ∈ map.mapobj type)
include covers mem

theorem delMapobj_eq (stop : Bool) :
    map.delMapobj m.ptr type stop.toNat = some (map.without m type stop) := by
  unfold DecMap.delMapobj
  rw [if_neg (not_not.mpr (covers.flag type m mem)), covers.find mem]
  cases stop <;> rfl

theorem mem_without {stop : Bool} {type' : DecType} {o : Mapobj width height} :
    o ∈ (map.without m type stop).mapobj type' ↔ o ∈ map.mapobj type' ∧ o.ptr ≠ m.ptr := by
  simp only [DecMap.without]
  by_cases eq : type' = type
  · subst eq
    rw [update_self, mem_filter, decide_eq_true_eq]
  · rw [update_of_ne eq]
    refine ⟨fun inList => ⟨inList, fun ptrs => ?_⟩, And.left⟩
    exact eq (covers.apart type' o type m inList mem (.inl ptrs)).1

theorem without {stop : Bool} (quiet : stop = false → ∀ e ∈ map.pending, e.1 ≠ m.ptr) :
    Covers (map.without m type stop) (l.uncover m.hex) where
  elevation := covers.elevation
  ptrs type' := by
    simp only [DecMap.without]
    by_cases eq : type' = type
    · subst eq
      rw [update_self]
      exact (covers.ptrs type').sublist (filter_sublist.map _)
    · rw [update_of_ne eq]
      exact covers.ptrs type'
  apart type₁ m₁ type₂ m₂ one two := covers.apart type₁ m₁ type₂ m₂
    ((covers.mem_without mem).mp one).1 ((covers.mem_without mem).mp two).1
  unused ptr inFree type' o inList := by
    obtain ⟨inOld, other⟩ := (covers.mem_without mem).mp inList
    rcases mem_cons.mp inFree with rfl | old
    · exact other
    · exact covers.unused ptr old type' o inOld
  free := nodup_cons.mpr ⟨fun inFree => covers.unused m.ptr inFree type m mem rfl,
    covers.free⟩
  freeBelow ptr inFree := by
    rcases mem_cons.mp inFree with rfl | old
    · exact covers.below type m mem
    · exact covers.freeBelow ptr old
  below type' o inList := covers.below type' o ((covers.mem_without mem).mp inList).1
  flag type' o inList := covers.flag type' o ((covers.mem_without mem).mp inList).1
  events := by
    simp only [DecMap.without]
    split
    · exact covers.events.sublist (filter_sublist.map _)
    · exact covers.events
  live e inPending := by
    have both : e ∈ map.pending ∧ e.1 ≠ m.ptr := by
      simp only [DecMap.without] at inPending
      split at inPending
      · simpa using inPending
      · rename_i still
        exact ⟨inPending, quiet (by simpa using still) e inPending⟩
    obtain ⟨o, inOld, ptr⟩ := covers.live e both.1
    exact ⟨o, (covers.mem_without mem).mpr ⟨inOld, ptr ▸ both.2⟩, ptr⟩
  covered type' o inList := by
    obtain ⟨inOld, other⟩ := (covers.mem_without mem).mp inList
    have elsewhere : o.hex ≠ m.hex := fun eq => other
      (by rw [(covers.apart type' o type m inOld mem (.inr eq)).2])
    obtain ⟨c, cover, datac, shown⟩ := covers.covered type' o inOld
    refine ⟨c, ?_, datac, ?_⟩
    · exact (update_of_ne elsewhere _ _).trans cover
    · exact (update_of_ne elsewhere _ _).trans shown
  bare hex none' := by
    by_cases eq : hex = m.hex
    · subst eq
      obtain ⟨c, -, datac, -⟩ := covers.covered type m mem
      exact ⟨update_self .., (update_self ..).trans datac⟩
    · have noNode : ∀ type', ∀ o ∈ map.mapobj type', o.hex ≠ hex := by
        intro type' o inOld here
        refine none' type' o ((covers.mem_without mem).mpr ⟨inOld, fun ptrs => ?_⟩) here
        rw [(covers.apart type' o type m inOld mem (.inl ptrs)).2] at here
        exact eq here.symm
      obtain ⟨cover, shown⟩ := covers.bare hex noNode
      exact ⟨(update_of_ne eq _ _).trans cover,
        (update_of_ne eq _ _).trans shown⟩
  solid := covers.solid

end

theorem delAt (covers : Covers map l) (hex : Hex width height) (type : DecType) :
    ∃ map', map.delAt hex type = some map' ∧ Covers map' (l.remove hex type) := by
  unfold DecMap.delAt Land.remove
  split_ifs with here
  · obtain ⟨⟨type', c⟩, cover, rfl⟩ := map_eq_some_iff.mp here
    obtain ⟨⟨m, mem, rfl⟩, -⟩ := covers.node_of_cover cover
    refine ⟨map.without m type' true, ?_, covers.without mem fun still => by cases still⟩
    rw [covers.at_hex mem, foldlM_cons]
    exact congrArg (· >>= pure) (covers.delMapobj_eq mem true)
  · refine ⟨map, ?_, covers⟩
    rw [at_hex_none fun m mem eq => ?_]
    · rfl
    · obtain ⟨c, cover, -⟩ := covers.covered type m mem
      rw [eq] at cover
      exact here (by rw [cover]; rfl)

end Covers

def DecMap.placed (map : DecMap width height) (m : Mapobj width height) (type : DecType)
    (data : CChar) (free : List Nat) (fresh : Nat) (pending : List (Nat × Handler)) :
    DecMap width height :=
  { map with
    terrain := update map.terrain m.hex data
    mapo := true
    mapobj := update map.mapobj type (m :: map.mapobj type)
    free := free
    fresh := fresh
    pending := pending }

/-- A node that can be taken, and what is left of the free list then. -/
structure Spare (map : DecMap width height) (ptr : Nat) (free : List Nat) (fresh : Nat) : Prop where
  unused : ∀ type, ∀ m ∈ map.mapobj type, m.ptr ≠ ptr
  notMem : ptr ∉ free
  sublist : free.Sublist map.free
  below : ptr < fresh
  grows : map.fresh ≤ fresh

namespace Covers

variable {map : DecMap width height} {l : Land width height} {type : DecType}
  {m : Mapobj width height} {hex : Hex width height}

theorem addMapobj_eq (covers : Covers map l) (hex : Hex width height) (type : DecType)
    (data datac : CChar) (datas : BitVec 16) : ∃ ptr free fresh, Spare map ptr free fresh ∧
      (map.setTerrain hex data).addMapobj type hex datac datas =
        (ptr, map.placed ⟨ptr, hex, datac, datas⟩ type data free fresh map.pending) := by
  cases list : map.free with
  | nil =>
    refine ⟨map.fresh, [], map.fresh + 1, ⟨fun type m mem => Nat.ne_of_lt (covers.below type m mem),
      not_mem_nil, nil_sublist _, Nat.lt_succ_self _, Nat.le_succ _⟩, ?_⟩
    simp [DecMap.addMapobj, DecMap.setTerrain, DecMap.placed, list]
  | cons ptr free =>
    have nodup := covers.free
    have below := covers.freeBelow ptr (by simp [list])
    rw [list, nodup_cons] at nodup
    refine ⟨ptr, free, map.fresh, ⟨covers.unused ptr (by simp [list]), nodup.1,
      by simp [list], below, Nat.le_refl _⟩, ?_⟩
    simp [DecMap.addMapobj, DecMap.setTerrain, DecMap.placed, list]

theorem mem_placed {data : CChar} {free : List Nat} {fresh : Nat} {pending : List (Nat × Handler)}
    {type' : DecType} {o : Mapobj width height} :
    o ∈ (map.placed m type data free fresh pending).mapobj type' ↔
      (type' = type ∧ o = m) ∨ o ∈ map.mapobj type' := by
  simp only [DecMap.placed]
  by_cases eq : type' = type
  · subst eq
    simp
  · rw [update_of_ne eq]
    simp [eq]

theorem placed (covers : Covers map l) (cover : l.cover m.hex = none)
    (datac : m.datac = l.ground m.hex) (data : CChar) {free : List Nat} {fresh : Nat}
    (spare : Spare map m.ptr free fresh) {pending : List (Nat × Handler)}
    (waits : pending = map.pending ∨
      ∃ handler : Handler, handler.type = type ∧ pending = (m.ptr, handler) :: map.pending) :
    Covers (map.placed m type data free fresh pending) (l.place m.hex type data) where
  elevation := covers.elevation
  ptrs type' := by
    simp only [DecMap.placed]
    by_cases eq : type' = type
    · subst eq
      rw [update_self, map_cons, nodup_cons]
      refine ⟨fun taken => ?_, covers.ptrs type'⟩
      obtain ⟨o, inList, ptr⟩ := mem_map.mp taken
      exact spare.unused type' o inList ptr
    · rw [update_of_ne eq]
      exact covers.ptrs type'
  apart type₁ m₁ type₂ m₂ one two eq := by
    have bare := (covers.bare_of_cover cover).1
    rcases mem_placed.mp one with ⟨rfl, rfl⟩ | old₁ <;> rcases mem_placed.mp two with ⟨rfl, rfl⟩ | old₂
    · exact ⟨rfl, rfl⟩
    · exact (eq.elim (fun ptr => spare.unused _ _ old₂ ptr.symm)
        fun hexes => bare _ _ old₂ hexes.symm).elim
    · exact (eq.elim (fun ptr => spare.unused _ _ old₁ ptr)
        fun hexes => bare _ _ old₁ hexes).elim
    · exact covers.apart type₁ m₁ type₂ m₂ old₁ old₂ eq
  unused ptr inFree type' o inList := by
    rcases mem_placed.mp inList with ⟨rfl, rfl⟩ | old
    · exact fun eq => spare.notMem (eq ▸ inFree)
    · exact covers.unused ptr (spare.sublist.subset inFree) type' o old
  free := covers.free.sublist spare.sublist
  freeBelow ptr inFree :=
    Nat.lt_of_lt_of_le (covers.freeBelow ptr (spare.sublist.subset inFree)) spare.grows
  below type' o inList := by
    rcases mem_placed.mp inList with ⟨rfl, rfl⟩ | old
    · exact spare.below
    · exact Nat.lt_of_lt_of_le (covers.below type' o old) spare.grows
  flag _ _ _ := rfl
  events := by
    simp only [DecMap.placed]
    rcases waits with rfl | ⟨handler, _, rfl⟩
    · exact covers.events
    · rw [map_cons, nodup_cons]
      refine ⟨fun taken => ?_, covers.events⟩
      obtain ⟨e, inPending, ptr⟩ := mem_map.mp taken
      obtain ⟨o, inList, ptr'⟩ := covers.live e inPending
      exact spare.unused _ o inList (ptr'.trans ptr)
  live e inPending := by
    simp only [DecMap.placed] at inPending
    have old : e ∈ map.pending → ∃ o ∈ (map.placed m type data free fresh pending).mapobj e.2.type,
        o.ptr = e.1 := fun inOld =>
      (covers.live e inOld).imp fun o hf => ⟨mem_placed.mpr (.inr hf.1), hf.2⟩
    rcases waits with rfl | ⟨handler, rfl, rfl⟩
    · exact old inPending
    · rcases mem_cons.mp inPending with rfl | inOld
      · exact ⟨m, mem_placed.mpr (.inl ⟨rfl, rfl⟩), rfl⟩
      · exact old inOld
  covered type' o inList := by
    rcases mem_placed.mp inList with ⟨rfl, rfl⟩ | old
    · exact ⟨data, update_self .., datac, update_self ..⟩
    · obtain ⟨c, cover', datac', shown⟩ := covers.covered type' o old
      have elsewhere : o.hex ≠ m.hex := (covers.bare_of_cover cover).1 type' o old
      exact ⟨c, (update_of_ne elsewhere _ _).trans cover', datac',
        (update_of_ne elsewhere _ _).trans shown⟩
  bare hex none' := by
    have elsewhere : hex ≠ m.hex := fun eq =>
      none' type m (mem_placed.mpr (.inl ⟨rfl, rfl⟩)) eq.symm
    obtain ⟨cover', shown⟩ := covers.bare hex fun type' o old =>
      none' type' o (mem_placed.mpr (.inr old))
    exact ⟨(update_of_ne elsewhere _ _).trans cover',
      (update_of_ne elsewhere _ _).trans shown⟩
  solid := covers.solid

theorem clear (covers : Covers map l) (hex : Hex width height) :
    ∃ map', decTypes.foldlM (fun map i => map.delAt hex i) map = some map' ∧
      Covers map' (l.uncover hex) := by
  obtain ⟨map₁, one, covers₁⟩ := covers.delAt hex .fire
  obtain ⟨map₂, two, covers₂⟩ := covers₁.delAt hex .smoke
  obtain ⟨map₃, three, covers₃⟩ := covers₂.delAt hex .dec
  refine ⟨map₃, ?_, ?_⟩
  · simp [decTypes, one, two, three]
  · have eq : ((l.remove hex .fire).remove hex .smoke).remove hex .dec = l.uncover hex := by
      have bare : l.cover hex = none → l.uncover hex = l := fun none' => by
        simp [Land.uncover, ← none']
      cases cover : l.cover hex with
      | none => simp [Land.remove, cover, bare cover]
      | some decoration =>
        obtain ⟨type', c⟩ := decoration
        cases type' <;> simp [Land.remove, cover, Land.uncover]
    exact eq ▸ covers₃

theorem addDecoration (covers : Covers map l) (type : DecType) (data : CChar) (flaggo : Int)
    (shows' : l.cover hex ≠ none → map.terrain hex = fire ∨ map.terrain hex = smoke) :
    ∃ map', map.addDecoration hex type data flaggo = some map' ∧
      Covers map' (l.place hex type data) := by
  obtain ⟨map₁, cleared, covers₁⟩ := covers.clear hex
  obtain ⟨ptr, free, fresh, spare, taken⟩ :=
    covers₁.addMapobj_eq hex type data (l.ground hex) (BitVec.ofInt 16 flaggo)
  have placed (pending : List (Nat × Handler)) (waits : pending = map₁.pending ∨
      ∃ handler : Handler, handler.type = type ∧ pending = (ptr, handler) :: map₁.pending) :
      Covers (map₁.placed ⟨ptr, hex, l.ground hex, BitVec.ofInt 16 flaggo⟩ type data free fresh
        pending) (l.place hex type data) := by
    have again : (l.uncover hex).place hex type data = l.place hex type data := by
      simp [Land.uncover, Land.place]
    exact again ▸ @Covers.placed _ _ map₁ (l.uncover hex) type
      ⟨ptr, hex, l.ground hex, BitVec.ofInt 16 flaggo⟩ covers₁ (update_self ..) rfl data
      free fresh spare pending waits
  unfold DecMap.addDecoration
  simp only [covers.getRTerrain_eq shows', cleared, taken, bind_eq_bind, bind_some]
  refine ⟨_, rfl, ?_⟩
  split_ifs
  · exact placed _ (.inl rfl)
  · cases type with
    | fire => exact placed _ (.inr ⟨.fireSpreading, rfl, rfl⟩)
    | smoke => exact placed _ (.inr ⟨.smokeDissipation, rfl, rfl⟩)
    | dec => exact placed _ (.inl rfl)

end Covers

def DecMap.countedDown (map : DecMap width height) (ptr : Nat) (datas : BitVec 16) :
    DecMap width height :=
  { map with
    mapobj := update map.mapobj .fire ((map.mapobj .fire).map (Mapobj.setDatas ptr datas)) }

def DecMap.taken (map : DecMap width height) (ptr : Nat) (handler : Handler) :
    DecMap width height :=
  { map with pending := map.pending.erase (ptr, handler) }

namespace Covers

variable {map : DecMap width height} {l : Land width height} {hex : Hex width height} {ptr : Nat}
  {handler : Handler}

section

variable (covers : Covers map l)
include covers

theorem taken (ptr : Nat) (handler : Handler) : Covers (map.taken ptr handler) l where
  elevation := covers.elevation
  ptrs := covers.ptrs
  apart := covers.apart
  unused := covers.unused
  free := covers.free
  freeBelow := covers.freeBelow
  below := covers.below
  flag := covers.flag
  events := covers.events.sublist (erase_sublist.map _)
  live e inPending := covers.live e (mem_of_mem_erase inPending)
  covered := covers.covered
  bare := covers.bare
  solid := covers.solid

theorem taken_quiet (waits : (ptr, handler) ∈ map.pending) :
    ∀ e ∈ (map.taken ptr handler).pending, e.1 ≠ ptr := by
  intro e inPending eq
  have nodup : map.pending.Nodup := covers.events.of_map _
  obtain ⟨o, inOld⟩ := nodup.mem_erase_iff.mp inPending
  exact o (inj_on_of_nodup_map covers.events inOld waits eq)

theorem dissipate (waits : (ptr, handler) ∈ map.pending) :
    ∃ m ∈ map.mapobj handler.type, m.ptr = ptr ∧
      ((map.taken ptr handler).mapobj handler.type).find? (·.ptr = ptr) = some m ∧
      ∃ map', (map.taken ptr handler).delMapobj ptr handler.type 0 = some map' ∧
        Covers map' (l.uncover m.hex) := by
  obtain ⟨m, mem, rfl⟩ := covers.live _ waits
  have covers' := covers.taken m.ptr handler
  refine ⟨m, mem, rfl, covers'.find mem, (map.taken m.ptr handler).without m handler.type false,
    covers'.delMapobj_eq mem false, covers'.without mem fun _ => covers.taken_quiet waits⟩

theorem setTerrain (cover : l.cover hex = none) {t : CChar} (solid : t ≠ 0) :
    Covers (map.setTerrain hex t) { l with ground := update l.ground hex t } where
  elevation := covers.elevation
  ptrs := covers.ptrs
  apart := covers.apart
  unused := covers.unused
  free := covers.free
  freeBelow := covers.freeBelow
  below := covers.below
  flag := covers.flag
  events := covers.events
  live := covers.live
  covered type m mem := by
    obtain ⟨c, cover', datac, shown⟩ := covers.covered type m mem
    have elsewhere : m.hex ≠ hex := (covers.bare_of_cover cover).1 type m mem
    exact ⟨c, cover', datac.trans (update_of_ne elsewhere _ _).symm,
      (update_of_ne elsewhere _ _).trans shown⟩
  bare o none' := by
    obtain ⟨cover', shown⟩ := covers.bare o none'
    refine ⟨cover', ?_⟩
    simp only [DecMap.setTerrain]
    by_cases eq : o = hex
    · rw [eq, update_self, update_self]
    · rw [update_of_ne eq, update_of_ne eq, shown]
  solid o := by
    change update l.ground hex t o ≠ 0
    by_cases eq : o = hex
    · rw [eq, update_self]
      exact solid
    · rw [update_of_ne eq]
      exact covers.solid o

theorem fireDissipationEvent (waits : (ptr, .fireDissipation) ∈ map.pending) (number : Nat) :
    ∃ m ∈ map.mapobj .fire, m.ptr = ptr ∧ ∃ map',
      (map.taken ptr .fireDissipation).fireDissipationEvent ptr number = some map' ∧
        Covers map' (l.expire m.hex .fireDissipation number) := by
  obtain ⟨m, mem, eq, hf, map', deleted, covers'⟩ := covers.dissipate waits
  refine ⟨m, mem, eq, if isForest (map'.getRTerrain m.hex) then
    map'.setTerrain m.hex (DecMap.burnt number) else map', ?_, ?_⟩
  · unfold DecMap.fireDissipationEvent
    simp only [Handler.type] at hf deleted
    rw [hf]
    simp only [bind_eq_bind, bind_some, deleted]
  · have bare : (l.uncover m.hex).cover m.hex = none := update_self ..
    have ground := covers'.getRTerrain_eq fun some' => absurd bare some'
    rw [ground]
    unfold Land.expire
    simp only [true_and]
    change Covers _ (if isForest ((l.uncover m.hex).ground m.hex) = true then _ else _)
    split_ifs
    · refine covers'.setTerrain bare ?_
      unfold DecMap.burnt
      split_ifs <;> decide
    · exact covers'

end

section

variable (datas : BitVec 16) (m : Mapobj width height)
include datas m

theorem setDatas_ptr : (Mapobj.setDatas ptr datas m).ptr = m.ptr := by
  unfold Mapobj.setDatas
  split <;> rfl

theorem setDatas_hex : (Mapobj.setDatas ptr datas m).hex = m.hex := by
  unfold Mapobj.setDatas
  split <;> rfl

theorem setDatas_datac : (Mapobj.setDatas ptr datas m).datac = m.datac := by
  unfold Mapobj.setDatas
  split <;> rfl

end

theorem mem_countedDown {m : Mapobj width height} {datas : BitVec 16} {type : DecType}
    {o : Mapobj width height} (inList : o ∈ (map.countedDown m.ptr datas).mapobj type) :
    ∃ old ∈ map.mapobj type, o.ptr = old.ptr ∧ o.hex = old.hex ∧ o.datac = old.datac ∧
      o = if type = .fire then Mapobj.setDatas m.ptr datas old else old := by
  simp only [DecMap.countedDown] at inList
  by_cases eq : type = .fire
  · subst eq
    rw [update_self] at inList
    obtain ⟨old, inOld, rfl⟩ := mem_map.mp inList
    exact ⟨old, inOld, setDatas_ptr .., setDatas_hex .., setDatas_datac .., rfl⟩
  · rw [update_of_ne eq] at inList
    exact ⟨o, inList, rfl, rfl, rfl, (if_neg eq).symm⟩

theorem countedDown_mem (ptr : Nat) (datas : BitVec 16) {old : Mapobj width height}
    {type : DecType} (inOld : old ∈ map.mapobj type) :
    ∃ o ∈ (map.countedDown ptr datas).mapobj type, o.ptr = old.ptr ∧ o.hex = old.hex := by
  simp only [DecMap.countedDown]
  by_cases eq : type = .fire
  · subst eq
    rw [update_self]
    exact ⟨_, mem_map_of_mem inOld, setDatas_ptr .., setDatas_hex ..⟩
  · rw [update_of_ne eq]
    exact ⟨old, inOld, rfl, rfl⟩

theorem countDown (covers : Covers map l) {m : Mapobj width height} (mem : m ∈ map.mapobj .fire)
    (quiet : ∀ e ∈ map.pending, e.1 ≠ m.ptr) (datas : BitVec 16) (fires : handler.type = .fire) :
    Covers ((map.countedDown m.ptr datas).mapEvent handler m.ptr) l where
  elevation := covers.elevation
  ptrs type := by
    simp only [DecMap.mapEvent, DecMap.countedDown]
    by_cases eq : type = .fire
    · subst eq
      rw [update_self, List.map_map]
      have ptrs : Mapobj.ptr ∘ Mapobj.setDatas m.ptr datas = @Mapobj.ptr width height :=
        funext fun o => setDatas_ptr datas o
      rw [ptrs]
      exact covers.ptrs .fire
    · rw [update_of_ne eq]
      exact covers.ptrs type
  apart type₁ m₁ type₂ m₂ one two eq := by
    obtain ⟨old₁, inOld₁, ptr₁, hex₁, -, from₁⟩ := mem_countedDown one
    obtain ⟨old₂, inOld₂, ptr₂, hex₂, -, from₂⟩ := mem_countedDown two
    rw [ptr₁, ptr₂, hex₁, hex₂] at eq
    obtain ⟨rfl, rfl⟩ := covers.apart type₁ old₁ type₂ old₂ inOld₁ inOld₂ eq
    exact ⟨rfl, from₁.trans from₂.symm⟩
  unused ptr inFree type o inList := by
    obtain ⟨old, inOld, eq, -⟩ := mem_countedDown inList
    exact eq ▸ covers.unused ptr inFree type old inOld
  free := covers.free
  freeBelow := covers.freeBelow
  below type o inList := by
    obtain ⟨old, inOld, eq, -⟩ := mem_countedDown inList
    exact eq ▸ covers.below type old inOld
  flag type o inList := by
    obtain ⟨old, inOld, -⟩ := mem_countedDown inList
    exact covers.flag type old inOld
  events := nodup_cons.mpr ⟨fun taken => by
    obtain ⟨e, inPending, eq⟩ := mem_map.mp taken
    exact quiet e inPending eq, covers.events⟩
  live e inPending := by
    rcases mem_cons.mp inPending with rfl | old
    · obtain ⟨o, inList, eq, -⟩ := countedDown_mem m.ptr datas mem
      exact ⟨o, fires ▸ inList, eq⟩
    · obtain ⟨m', member', eq⟩ := covers.live e old
      obtain ⟨o, inList, same', -⟩ := countedDown_mem m.ptr datas member'
      exact ⟨o, inList, same'.trans eq⟩
  covered type o inList := by
    obtain ⟨old, inOld, -, hex, datac, -⟩ := mem_countedDown inList
    rw [hex, datac]
    exact covers.covered type old inOld
  bare hex none' := covers.bare hex fun type old inOld eq => by
    obtain ⟨o, inList, -, hex'⟩ := countedDown_mem m.ptr datas inOld
    exact none' type o inList (hex'.trans eq)
  solid := covers.solid

theorem fireSpreadingEvent (covers : Covers map l) (waits : (ptr, .fireSpreading) ∈ map.pending) :
    ∃ map', (map.taken ptr .fireSpreading).fireSpreadingEvent ptr = some map' ∧ Covers map' l := by
  obtain ⟨m, mem, eq⟩ := covers.live _ waits
  obtain rfl : m.ptr = ptr := eq
  have fires : m ∈ (map.taken m.ptr .fireSpreading).mapobj .fire := mem
  have covers' := covers.taken m.ptr .fireSpreading
  unfold DecMap.fireSpreadingEvent
  rw [covers'.find fires]
  refine ⟨_, rfl, covers'.countDown fires (covers.taken_quiet waits) _ ?_⟩
  split_ifs <;> rfl

end Covers

/-- What a decoration is put on, if there is one there, shows fire or smoke; an event that
is run waits. -/
def Disciplined (map : DecMap width height) : Op width height → Prop
  | .add hex _ _ _ => (∃ type, ∃ m ∈ map.mapobj type, m.hex = hex) →
      map.terrain hex = fire ∨ map.terrain hex = smoke
  | .del _ _ => True
  | .event ptr handler _ => (ptr, handler) ∈ map.pending

namespace Covers

variable {map : DecMap width height} {l : Land width height}

theorem step (covers : Covers map l) {op : Op width height} (disciplined : Disciplined map op) :
    ∃ map', step map op = some map' ∧ Covers map' (l.after map op) := by
  cases op with
  | add hex type data flaggo =>
    refine covers.addDecoration type data flaggo fun cover => disciplined ?_
    obtain ⟨⟨type', c⟩, cover⟩ := ne_none_iff_exists'.mp cover
    exact ⟨type', (covers.node_of_cover cover).1⟩
  | del hex tt =>
    obtain ⟨map', deleted, covers'⟩ := covers.delAt hex tt
    refine ⟨map', ?_, covers'⟩
    simp [Terrain.step, DecMap.mapobjDel, deleted]
  | event ptr handler number =>
    cases handler with
    | fireSpreading =>
      obtain ⟨map', ran, covers'⟩ := covers.fireSpreadingEvent disciplined
      exact ⟨map', (if_pos disciplined).trans ran, covers'⟩
    | fireDissipation =>
      obtain ⟨m, mem, rfl, map', ended, covers'⟩ :=
        covers.fireDissipationEvent disciplined number
      refine ⟨map', (if_pos disciplined).trans ended, ?_⟩
      have post : l.after map (.event m.ptr .fireDissipation number) =
          l.expire m.hex .fireDissipation number := by
        simp only [Land.after, reduceCtorEq, if_false, Handler.type, covers.find mem]
      exact post ▸ covers'
    | smokeDissipation =>
      obtain ⟨m, mem, rfl, -, map', ended, covers'⟩ := covers.dissipate disciplined
      refine ⟨map', (if_pos disciplined).trans ended, ?_⟩
      have post : l.after map (.event m.ptr .smokeDissipation number) = l.uncover m.hex := by
        simp only [Land.after, reduceCtorEq, if_false, covers.find mem, Land.expire,
          false_and]
      exact post ▸ covers'

end Covers

structure Undecorated (start : DecMap width height) : Prop where
  mapobj : ∀ type, start.mapobj type = []
  pending : start.pending = []
  free : start.free.Nodup
  below : ∀ ptr ∈ start.free, ptr < start.fresh
  /-- A terrain is a character of a line of a map file. -/
  solid : ∀ hex, start.terrain hex ≠ 0

def Land.of (start : DecMap width height) : Land width height where
  ground := start.terrain
  elevation := start.elevation
  cover _ := none

theorem Undecorated.covers {start : DecMap width height} (undecorated : Undecorated start) :
    Covers start (Land.of start) where
  elevation := rfl
  ptrs type := by
    rw [undecorated.mapobj type]
    exact nodup_nil
  apart type m _ _ mem := by
    rw [undecorated.mapobj type] at mem
    cases mem
  unused _ _ type m mem := by
    rw [undecorated.mapobj type] at mem
    cases mem
  free := undecorated.free
  freeBelow := undecorated.below
  below type m mem := by
    rw [undecorated.mapobj type] at mem
    cases mem
  flag type m mem := by
    rw [undecorated.mapobj type] at mem
    cases mem
  events := by
    rw [undecorated.pending]
    exact nodup_nil
  live e mem := by
    rw [undecorated.pending] at mem
    cases mem
  covered type m mem := by
    rw [undecorated.mapobj type] at mem
    cases mem
  bare _ _ := ⟨rfl, rfl⟩
  solid := undecorated.solid

def track (s : DecMap width height × Land width height) (op : Op width height) :
    Option (DecMap width height × Land width height) :=
  (step s.1 op).map fun map' => (map', s.2.after s.1 op)

/-- On a hex there is what the land says: one decoration at most, which shows, and the ground
below it, which a deletion brings back. -/
structure Restores (start map : DecMap width height) (l : Land width height)
    (hex : Hex width height) : Prop where
  one : ((decTypes.flatMap map.mapobj).filter (·.hex = hex)).length ≤ 1
  object : ∀ type, (∃ m ∈ map.mapobj type, m.hex = hex) ↔ ∃ c, l.cover hex = some (type, c)
  shown : map.terrain hex = match l.cover hex with
    | some (_, c) => c
    | none => l.ground hex
  underlying : map.mapUnderlyingTerrain hex = l.ground hex
  elevation : map.elevation hex = start.elevation hex
  deleted : ∀ type c, l.cover hex = some (type, c) → ∃ count map',
    map.mapobjDel hex type = some (count, map') ∧ map'.terrain hex = l.ground hex ∧
      map'.elevation hex = start.elevation hex

theorem Covers.length_at_hex {map : DecMap width height} {l : Land width height}
    (covers : Covers map l) (hex : Hex width height) (type : DecType) :
    ((map.mapobj type).filter (·.hex = hex)).length =
      if (l.cover hex).map Prod.fst = some type then 1 else 0 := by
  split_ifs with here
  · obtain ⟨⟨type', c⟩, cover, rfl⟩ := map_eq_some_iff.mp here
    obtain ⟨⟨m, mem, rfl⟩, -⟩ := covers.node_of_cover cover
    rw [covers.at_hex mem, length_singleton]
  · rw [at_hex_none fun m mem eq => ?_, length_nil]
    obtain ⟨c, cover, -⟩ := covers.covered type m mem
    rw [eq] at cover
    exact here (by rw [cover]; rfl)

theorem Covers.restores {start map : DecMap width height} {l : Land width height}
    (covers : Covers map l) (elevation : l.elevation = start.elevation) (hex : Hex width height) :
    Restores start map l hex where
  one := by
    have lengths := covers.length_at_hex hex
    simp only [decTypes, flatMap_cons, flatMap_nil, append_nil, filter_append,
      length_append, lengths]
    rcases (l.cover hex).map Prod.fst with _ | type
    · simp
    · cases type <;> simp
  object type := by
    constructor
    · rintro ⟨m, mem, rfl⟩
      obtain ⟨c, cover, -⟩ := covers.covered type m mem
      exact ⟨c, cover⟩
    · rintro ⟨c, cover⟩
      exact (covers.node_of_cover cover).1
  shown := by
    cases cover : l.cover hex with
    | none => exact (covers.bare_of_cover cover).2
    | some decoration => exact (covers.node_of_cover cover).2
  underlying := covers.underlying hex
  elevation := by rw [covers.elevation, elevation]
  deleted type c cover := by
    obtain ⟨map', deleted, covers'⟩ := covers.delAt hex type
    have bare : (l.remove hex type) = l.uncover hex := if_pos (by rw [cover]; rfl)
    rw [bare] at covers'
    refine ⟨_, map', congrArg (Option.map _) deleted, ?_, ?_⟩
    · exact (covers'.bare_of_cover (update_self ..)).2
    · rw [covers'.elevation]
      exact congrFun elevation hex

theorem Land.after_elevation (l : Land width height) (map : DecMap width height)
    (op : Op width height) : (l.after map op).elevation = l.elevation := by
  cases op with
  | add hex type data flaggo => rfl
  | del hex tt =>
    simp only [Land.after, Land.remove]
    split_ifs <;> rfl
  | event ptr handler number =>
    simp only [Land.after, Land.expire]
    split_ifs
    · rfl
    · split
      · split_ifs <;> rfl
      · rfl

/-- Whatever is put on a map, deleted and comes to its end, every hex keeps its ground and
elevation below its decoration, but a burnt forest; and it has one decoration at most. -/
theorem decorations_restore (start : DecMap width height) (undecorated : Undecorated start)
    (ops : List (Op width height))
    (disciplined : Machine.Guarded track (fun s op => Disciplined s.1 op) (start, Land.of start) ops) :
    ∃ map l, Machine.run track (start, Land.of start) ops = some (map, l) ∧
      ∀ hex, Restores start map l hex := by
  obtain ⟨⟨map, l⟩, ran, covers, elevation⟩ :=
    @Machine.guarded_invariant _ _ track (fun s op => Disciplined s.1 op)
      (fun s => Covers s.1 s.2 ∧ s.2.elevation = start.elevation)
      (fun s op ⟨covers, elevation⟩ allowed => by
        obtain ⟨map', stepped, covers'⟩ := covers.step allowed
        exact ⟨(map', s.2.after s.1 op), congrArg (Option.map fun map' => (map', s.2.after s.1 op))
          stepped, covers', (s.2.after_elevation s.1 op).trans elevation⟩)
      (start, Land.of start) ops ⟨undecorated.covers, rfl⟩ disciplined
  exact ⟨map, l, ran, covers.restores elevation⟩

section Grove

instance (map : DecMap width height) (op : Op width height) : Decidable (Disciplined map op) :=
  match op with
  | .add hex _ _ _ => decidable_of_iff
      ((∃ type ∈ decTypes, ∃ m ∈ map.mapobj type, m.hex = hex) →
        map.terrain hex = fire ∨ map.terrain hex = smoke) (by
          refine imp_congr_left ⟨?_, ?_⟩
          · rintro ⟨type, -, found⟩
            exact ⟨type, found⟩
          · rintro ⟨type, found⟩
            exact ⟨type, by cases type <;> decide, found⟩)
  | .del _ _ => isTrue trivial
  | .event ptr handler _ => inferInstanceAs (Decidable ((ptr, handler) ∈ map.pending))

def grove : DecMap 1 1 where
  terrain _ := heavyForest
  elevation _ := 2
  windspeed := 0
  mapo := false
  mapobj _ := []
  free := []
  fresh := 0
  pending := []

theorem grove_undecorated : Undecorated grove :=
  ⟨fun _ => rfl, rfl, nodup_nil, fun _ none' => absurd none' not_mem_nil,
    fun _ => (by decide : heavyForest ≠ 0)⟩

/-- Smoke comes over a fire, and goes. -/
theorem grove_restores : ∃ map l, Machine.run track (grove, Land.of grove)
    [.add (0, 0) .fire fire 60, .add (0, 0) .smoke smoke 90, .event 0 .smokeDissipation 1] =
      some (map, l) ∧ ∀ hex, Restores grove map l hex :=
  decorations_restore grove grove_undecorated _ (by decide)

/-- A fire burns down; the forest is gone. -/
theorem forest_burns : ∃ map, Machine.run step grove [.add (0, 0) .fire fire 60,
    .event 0 .fireSpreading 1, .event 0 .fireDissipation 1] = some map ∧
      (∀ type, map.mapobj type = []) ∧ map.terrain (0, 0) ≠ grove.terrain (0, 0) := by
  refine ⟨_, rfl, fun type => ?_, by decide⟩
  cases type <;> rfl

end Grove

end BattletechMux.Terrain
