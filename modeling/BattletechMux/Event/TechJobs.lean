/-
Module: BattletechMux.Event.TechJobs
Purpose: The jobs of the tech commands, what each packs into the argument of its event and the
  handlers unpack, and saving them, from mech.tech.saverepair.c, mech.tech.h, mech.tech.commands.c,
  mech.tech.do.c and mech.tech.events.c.
-/
import Mathlib
import BattletechMux.Ammo.Slots
import BattletechMux.Event.Store

namespace BattletechMux.EventQueue

def firstTechEvent : Nat := 40

def lastTechEvent : Nat := 55

inductive TechFunction where
  /-- `very_fake_func`: the attempt failed, and only the time passes. -/
  | veryFake
  | mountbomb
  | umountbomb
  | repairpart
  | replacegun
  | repairenhcrit
  | repairgun
  | reattach
  | reload
  | repairarmor
  | repairinternal
  | removesection
  | removegun
  | removepart
  | replacesuit
  | reseal
deriving Repr, DecidableEq

def TechFunction.func (f : TechFunction) : Func := f.ctorIdx

def playerPos : Int := 65536

/-- `(int) p`: an int and a pointer have 32 bits. -/
def Pointer.toInt (p : Pointer) : Int := (BitVec.ofNat 32 p).toInt

/-- `(void *) i`. -/
def Pointer.ofInt (i : Int) : Pointer := (BitVec.ofInt 32 i).toNat

structure Objects where
  /-- Does `FindObjectsData` find the object? -/
  hasData : Nat → Bool
  playerExists : Int → Bool

/-- The player an event is charged to: `data / PLAYERPOS`. -/
def Event.player (e : Event) : Int := (Pointer.toInt e.data2).tdiv playerPos

def Objects.hasMech (o : Objects) (e : Event) : Bool := o.hasData e.data

def Objects.wanted (o : Objects) (e : Event) : Bool :=
  o.hasMech e && o.playerExists e.player

def Objects.findObjectsData (o : Objects) (d : Int) : Option Pointer :=
  if 0 ≤ d ∧ o.hasData d.toNat = true then some d.toNat else none

/-- `LoopType` and `LoopEvent`: the events of a list that are no zombies, in order.
`limit` bounds the walk. -/
def walk (s : Store) (link : Addr → Option Addr) : Nat → Option Addr → Option (List Event)
  | _, none => some []
  | 0, some _ => none
  | limit + 1, some e =>
    (walk s link limit (link e)).map fun rest =>
      if !(s.info e).zombie then s.info e :: rest else rest

/-- The events `event_gothru_type` hands to its function. -/
def eventGothruType (s : Store) (type : Nat) : Option (List Event) :=
  if (type : Int) > s.lastEventType then some []
  else walk s s.nextInType s.allocated (s.eventFirstInType type)

/-- The events `save_event` is handed. -/
def handed (s : Store) : Option (List Event) :=
  ((List.range' firstTechEvent (lastTechEvent + 1 - firstTechEvent)).mapM
    (eventGothruType s)).map List.flatten

def saveEvent (eventTick : Nat) (e : Event) : List Int :=
  let data := Pointer.toInt e.data2
  let t := max 1 ((e.tick : Int) - eventTick)
  let t := if e.function = TechFunction.veryFake.func then 0 - t else t
  [(e.data : Int), (e.type.val : Int), t, data]

def repairFile (eventTick : Nat) (events : List Event) : List Int :=
  events.flatMap (saveEvent eventTick) ++ [-1]

def saverepairs (s : Store) : Option (List Int) := (handed s).map (repairFile s.eventTick)

def fixEvent (s : Store) (time : Int) (d1 : Pointer) (d2 : Int) (fu : TechFunction)
    (type : EventType) (player : Int) : Store :=
  eventAdd s (max 1 time) 0 type fu.func d1 (Pointer.ofInt (d2 + player * playerPos))

/-- The `switch` of `loadrepairs`, over the event type numbers of mech.events.h. -/
def loadFunction : Nat → Option TechFunction
  | 51 => some .mountbomb
  | 52 => some .umountbomb
  | 40 => some .repairpart
  | 41 => some .replacegun
  | 50 => some .repairpart
  | 55 => some .repairenhcrit
  | 49 => some .repairgun
  | 42 => some .reattach
  | 43 => some .reload
  | 44 => some .repairarmor
  | 45 => some .repairinternal
  | 46 => some .removesection
  | 48 => some .removegun
  | 47 => some .removepart
  | 54 => some .replacesuit
  | _ => none

def loadEvent (s : Store) (mech : Pointer) (type time data : Int) : Store :=
  let fake := decide (time < 0)
  let time := (time.natAbs : Int)
  let player := data.tdiv playerPos
  let data := data.tmod playerPos
  let eventType : EventType := Fin.ofNat 128 type.toNat
  if fake then fixEvent s time mech data .veryFake eventType player
  else
    match loadFunction type.toNat with
    | some function => fixEvent s time mech data function eventType player
    | none => s

/-- The loop of `loadrepairs`: `d` was read last.  After a unit that does not exist
the next `d` is not read. -/
def loadLoop (o : Objects) : Int → List Int → Store → Store
  | d, type :: time :: data :: rest, s =>
    if 0 < d then
      match o.findObjectsData d with
      | none => loadLoop o d rest s
      | some mech =>
        match rest with
        | [] => loadEvent s mech type time data
        | d :: rest => loadLoop o d rest (loadEvent s mech type time data)
    else s
  | _, _, s => s

def loadrepairs (o : Objects) (file : List Int) (s : Store) : Store :=
  match file with
  | [] => s
  | d :: rest => loadLoop o d rest s

/-- The events in the queue, as a walk of `event_list` finds them. -/
def listed (s : Store) : Option (List Event) :=
  walk s s.nextInMain s.allocated s.eventList

def locMax : Int := 16

def posMax : Int := 16

def packLocpos (loc pos : Int) : Int := loc + pos * locMax

def packLocposE (loc pos extra : Int) : Int :=
  loc + pos * locMax + extra * locMax * posMax

/-- The `loc` of `UNPACK_LOCPOS`. -/
def unpackLoc (v : Int) : Int := v.tmod locMax

/-- The `pos` of `UNPACK_LOCPOS`. -/
def unpackPos (v : Int) : Int := (v.tdiv locMax).tmod posMax

/-- The `extra` of `UNPACK_LOCPOS_E`. -/
def unpackExtra (v : Int) : Int := v.tdiv (locMax * posMax)

/-- A section: one of `NUM_SECTIONS`. -/
abbrev Section := Fin 8

/-- A critical slot of a section: one of `NUM_CRITICALS`. -/
abbrev Slot := Fin 12

/-- The value of an armor or structure field, an `unsigned char`. -/
abbrev Points := Fin 256

/-- What `fixarmor_fail` and `fixinternal_fail` leave of the points to fix: `again` says
that a second roll succeeded, and `r` is `random() % 40`. -/
def fixFail (again : Bool) (r : Fin 40) (should : Int) : Int :=
  let tot : Int := (if again then 50 else 0) + ((r.val : Int) + 5)
  let tot := (tot * should).tdiv 100
  let tot := if tot = 0 then 1 else tot
  if tot = should then should - 1 else tot

/-- The points that are fixed: all of them, unless the roll failed. -/
def pointsFixed (failed : Option (Bool × Fin 40)) (change : Int) : Int :=
  match failed with
  | none => change
  | some (again, r) => fixFail again r change

/-- The `change` of `tech_fixarmor`: from the armor there is to its original value. -/
def fixarmorChange (armor original : Points) (failed : Option (Bool × Fin 40)) : Int :=
  pointsFixed failed ((original.val : Int) - min original.val armor.val)

/-- The `change` of `tech_fixinternal`. -/
def fixinternalChange (internal original : Points) (failed : Option (Bool × Fin 40)) : Int :=
  pointsFixed failed ((original.val : Int) - internal.val)

theorem tdiv_hundred_bounds {tot should : Int} (low : 0 ≤ tot) (high : tot < 100) :
    (0 < should → 0 ≤ (tot * should).tdiv 100 ∧ (tot * should).tdiv 100 < should) ∧
      (should < 0 → should < (tot * should).tdiv 100 ∧ (tot * should).tdiv 100 ≤ 0) := by
  constructor
  · intro positive
    have product : 0 ≤ tot * should := mul_nonneg low positive.le
    have bound : tot * should < 100 * should := by nlinarith
    rw [Int.tdiv_eq_ediv_of_nonneg product]
    omega
  · intro negative
    have product : 0 ≤ tot * -should := mul_nonneg low (by omega)
    have bound : tot * -should < 100 * -should := by nlinarith
    have flip : (tot * should).tdiv 100 = -((tot * -should).tdiv 100) := by
      rw [mul_neg, Int.neg_tdiv, neg_neg]
    rw [flip, Int.tdiv_eq_ediv_of_nonneg product]
    omega

theorem fixFail_bounds (again : Bool) (r : Fin 40) {should : Int} (some' : should ≠ 0) :
    min 0 should ≤ fixFail again r should ∧ fixFail again r should ≤ max 1 should := by
  have tot : 0 ≤ (if again then (50 : Int) else 0) + ((r.val : Int) + 5) ∧
      (if again then (50 : Int) else 0) + ((r.val : Int) + 5) < 100 := by
    have := r.isLt
    split <;> omega
  obtain ⟨up, down⟩ := @tdiv_hundred_bounds _ should tot.1 tot.2
  unfold fixFail
  dsimp only
  generalize (if again then (50 : Int) else 0) + ((r.val : Int) + 5) = t at up down ⊢
  generalize (t * should).tdiv 100 = q at up down ⊢
  by_cases zero : q = 0
  · rw [if_pos zero]
    split <;> omega
  · rw [if_neg zero]
    rcases lt_or_gt_of_ne some' with negative | positive
    · have := down negative
      split <;> omega
    · have := up positive
      split <;> omega

abbrev Amount (low : Int) := {n : Int // low ≤ n ∧ n ≤ 255}

theorem fixinternalChange_bounds {internal original : Points}
    (needed : internal.val ≠ original.val) (failed : Option (Bool × Fin 40)) :
    -255 ≤ fixinternalChange internal original failed ∧
      fixinternalChange internal original failed ≤ 255 := by
  have := original.isLt
  have := internal.isLt
  unfold fixinternalChange
  cases failed with
  | none =>
    simp only [pointsFixed]
    omega
  | some failed =>
    have bounds := fixFail_bounds failed.1 failed.2
      (by omega : (original.val : Int) - internal.val ≠ 0)
    simp only [pointsFixed]
    omega

inductive Job where
  /-- `tech_removegun`. -/
  | removegun (loc : Section) (part : Slot)
  /-- `tech_removepart`; after a failure, `mod` is 3 and the function is `very_fake_func`. -/
  | removepart (loc : Section) (part : Slot) (failed : Bool)
  /-- `tech_removesection`. -/
  | removesection (loc : Section) (failed : Bool)
  /-- `tech_replacegun`; a brand has 4 bits. -/
  | replacegun (loc : Section) (part : Slot) (brand : Fin 16)
  /-- `tech_repairgun`. -/
  | repairgun (loc : Section) (part : Slot)
  /-- `tech_fixenhcrit`. -/
  | fixenhcrit (loc : Section) (part : Slot)
  /-- `tech_replacepart`. -/
  | replacepart (loc : Section) (part : Slot)
  /-- `tech_repairpart`. -/
  | repairpart (loc : Section) (part : Slot)
  /-- `tech_reload`. -/
  | reload (loc : Section) (part : Slot)
  /-- `tech_unload` of a bin that is full or not. -/
  | unload (loc : Section) (part : Slot) (full : Bool)
  /-- `tech_fixarmor`, and the repair of the next point. -/
  | fixarmor (loc : Section) (rear : Bool) (change : Amount 0)
  /-- `tech_fixinternal`, and the repair of the next point. -/
  | fixinternal (loc : Section) (change : Amount (-255))
  /-- `tech_reattach`. -/
  | reattach (loc : Section)
  /-- `tech_replacesuit`. -/
  | replacesuit (loc : Section)
  /-- `tech_reseal`. -/
  | reseal (loc : Section)

theorem fixarmorChange_bounds {armor original : Points}
    (needed : min original.val armor.val ≠ original.val) (failed : Option (Bool × Fin 40)) :
    0 ≤ fixarmorChange armor original failed ∧ fixarmorChange armor original failed ≤ 255 := by
  have := original.isLt
  unfold fixarmorChange
  cases failed with
  | none =>
      simp only [pointsFixed]
      omega
  | some failed =>
      have bounds := fixFail_bounds failed.1 failed.2
        (by omega : (original.val : Int) - min original.val armor.val ≠ 0)
      simp only [pointsFixed]
      omega

/-- `tech_fixarmor`, once its checks have passed. -/
def techFixarmor (loc : Section) (rear : Bool) (armor original : Points)
    (failed : Option (Bool × Fin 40)) : Option Job :=
  if needed : min original.val armor.val ≠ original.val then
    some (.fixarmor loc rear ⟨_, fixarmorChange_bounds needed failed⟩)
  else none

/-- `tech_fixinternal`, once its checks have passed. -/
def techFixinternal (loc : Section) (internal original : Points)
    (failed : Option (Bool × Fin 40)) : Option Job :=
  if needed : internal.val ≠ original.val then
    some (.fixinternal loc ⟨_, fixinternalChange_bounds needed failed⟩)
  else none

/-- The section of a job; behind the front sections are the rear sides. -/
def Job.loc : Job → Int
  | .removegun loc _ | .removepart loc _ _ | .removesection loc _ | .replacegun loc _ _
  | .repairgun loc _ | .fixenhcrit loc _ | .replacepart loc _ | .repairpart loc _
  | .reload loc _ | .unload loc _ _ | .fixinternal loc _ | .reattach loc
  | .replacesuit loc | .reseal loc => loc.val
  | .fixarmor loc rear _ => (if rear then loc.val + 8 else loc.val : Nat)

def Job.part : Job → Option Int
  | .removegun _ part | .removepart _ part _ | .replacegun _ part _ | .repairgun _ part
  | .fixenhcrit _ part | .replacepart _ part | .repairpart _ part | .reload _ part
  | .unload _ part _ => some part.val
  | .removesection .. | .fixarmor .. | .fixinternal .. | .reattach _ | .replacesuit _
  | .reseal _ => none

/-- `mod`. -/
def timeMod (failed : Bool) : Int := if failed then 3 else 2

/-- The `d2` that the command hands to `FIXEVENT`. -/
def Job.d2 : Job → Int
  | .removegun loc part => packLocposE loc.val part.val (timeMod false)
  | .removepart loc part failed => packLocposE loc.val part.val (timeMod failed)
  | .removesection loc failed => packLocposE loc.val 0 (timeMod failed)
  | .replacegun loc part brand => packLocposE loc.val part.val brand.val
  | .repairgun loc part => packLocpos loc.val part.val
  | .fixenhcrit loc part => packLocpos loc.val part.val
  | .replacepart loc part => packLocpos loc.val part.val
  | .repairpart loc part => packLocpos loc.val part.val
  | .reload loc part => packLocposE loc.val part.val 0
  | .unload loc part full => packLocposE loc.val part.val (if full then 2 else 1)
  | .fixarmor loc rear change =>
    change.val * 16 + (if rear then loc.val + 8 else loc.val : Nat)
  | .fixinternal loc change => change.val * 16 + loc.val
  | .reattach loc => loc.val
  | .replacesuit loc => loc.val
  | .reseal loc => loc.val

def Job.type : Job → EventType
  | .removegun .. => 48
  | .removepart .. => 47
  | .removesection .. => 46
  | .replacegun .. => 41
  | .repairgun .. => 50
  | .fixenhcrit .. => 55
  | .replacepart .. => 40
  | .repairpart .. => 50
  | .reload .. => 43
  | .unload .. => 43
  | .fixarmor .. => 44
  | .fixinternal .. => 45
  | .reattach _ => 42
  | .replacesuit _ => 54
  | .reseal _ => 53

def Job.function : Job → TechFunction
  | .removegun .. => .removegun
  | .removepart _ _ failed => if failed then .veryFake else .removepart
  | .removesection .. => .removesection
  | .replacegun .. => .replacegun
  | .repairgun .. => .repairgun
  | .fixenhcrit .. => .repairenhcrit
  | .replacepart .. => .repairpart
  | .repairpart .. => .repairpart
  | .reload .. => .reload
  | .unload .. => .reload
  | .fixarmor .. => .repairarmor
  | .fixinternal .. => .repairinternal
  | .reattach _ => .reattach
  | .replacesuit _ => .replacesuit
  | .reseal _ => .reseal

/-- A `dbref` that can be a player's: 0 is the first room. -/
abbrev Player := {player : Int // 0 < player ∧ player < 2 ^ 31}

def Job.data2 (job : Job) (player : Player) : Pointer :=
  Pointer.ofInt (job.d2 + player.val * playerPos)

/-- What is packed into the second argument of an event for its function, or read from it. -/
structure Reading where
  loc : Option Int
  pos : Option Int
  extra : Option Int
  player : Option Int
deriving Repr, DecidableEq

def Job.packed (job : Job) (player : Player) : Reading :=
  match job with
  | .removegun _ part =>
    { loc := some job.loc, pos := some part.val, extra := some (timeMod false), player := none }
  | .removepart _ part false =>
    { loc := some job.loc, pos := some part.val, extra := some (timeMod false), player := none }
  | .removepart _ _ true => { loc := none, pos := none, extra := none, player := none }
  | .removesection _ failed =>
    { loc := some job.loc, pos := some 0, extra := some (timeMod failed), player := none }
  | .replacegun _ part brand =>
    { loc := some job.loc, pos := some part.val, extra := some brand.val, player := none }
  | .reload _ part =>
    { loc := some job.loc, pos := some part.val, extra := some 0, player := none }
  | .unload _ part full =>
    { loc := some job.loc, pos := some part.val, extra := some (if full then 2 else 1)
      player := none }
  | .repairgun _ part | .fixenhcrit _ part | .replacepart _ part | .repairpart _ part =>
    { loc := some job.loc, pos := some part.val, extra := none, player := none }
  | .fixarmor _ _ change =>
    { loc := some job.loc, pos := none, extra := some change.val, player := some player.val }
  | .fixinternal _ change =>
    { loc := some job.loc, pos := none, extra := some change.val, player := some player.val }
  | .reattach _ | .replacesuit _ | .reseal _ =>
    { loc := some job.loc, pos := none, extra := none, player := none }

/-- What each handler of mech.tech.events.c unpacks. -/
def TechFunction.unpack (f : TechFunction) (data2 : Pointer) : Reading :=
  let earg := (Pointer.toInt data2).tmod playerPos
  match f with
  | .removesection | .removegun | .removepart | .replacegun | .reload =>
    { loc := some (unpackLoc earg), pos := some (unpackPos earg)
      extra := some (unpackExtra earg), player := none }
  | .repairgun | .repairenhcrit | .repairpart =>
    { loc := some (unpackLoc earg), pos := some (unpackPos earg)
      extra := none, player := none }
  | .repairarmor | .repairinternal =>
    { loc := some (earg.tmod 16), pos := none
      extra := some ((earg.tdiv 16).tmod 256)
      player := some ((Pointer.toInt data2).tdiv playerPos) }
  | .reattach | .replacesuit | .reseal =>
    { loc := some earg, pos := none, extra := none, player := none }
  | .veryFake | .mountbomb | .umountbomb =>
    { loc := none, pos := none, extra := none, player := none }

def techCheckLocpart (loc part : Int) (e : Event) : Bool :=
  let l := Pointer.toInt e.data2
  unpackLoc l == loc && unpackPos l == part

def techCheckLoc (loc : Int) (e : Event) : Bool := (Pointer.toInt e.data2).tmod 16 == loc

/-- How often `event_gothru_type_data` finds a check true, on the events of the queue. -/
def tmpFlag (queue : List Event) (t : EventType) (mech : Pointer) (check : Event → Bool) :
    Nat :=
  queue.countP fun e => !e.zombie && e.type == t && e.data == mech && check e

def someoneRepairingS (queue : List Event) (mech : Pointer) (loc part : Int) (t : EventType) :
    Nat :=
  tmpFlag queue t mech (techCheckLocpart loc part)

/-- The types that `SomeoneRepairing` asks for, one after the other. -/
def repairingTypes : List EventType := [43, 40, 41, 50, 49, 51, 55]

/-- The types that `SomeoneScrappingPart` asks for. -/
def scrappingTypes : List EventType := [47, 48, 52]

def someoneRepairing (queue : List Event) (mech : Pointer) (loc part : Int) : Bool :=
  repairingTypes.any fun t => someoneRepairingS queue mech loc part t != 0

def someoneScrappingPart (queue : List Event) (mech : Pointer) (loc part : Int) : Bool :=
  scrappingTypes.any fun t => someoneRepairingS queue mech loc part t != 0

/-- `SomeoneFixingA`, `SomeoneFixingI`, `SomeoneAttaching`, `SomeoneReplacingSuit`,
`SomeoneResealing` and `SomeoneScrappingLoc`, each for the type of its events. -/
def someoneAtLoc (queue : List Event) (mech : Pointer) (loc : Int) (t : EventType) : Nat :=
  tmpFlag queue t mech (techCheckLoc loc)

section Truncation

variable {v m : Int}

theorem tmod_of_nonpos (nonpos : v ≤ 0) : v.tmod m = -(-v % m) := by
  rw [← Int.tmod_eq_emod_of_nonneg (by omega), Int.neg_tmod, neg_neg]

theorem tdiv_of_nonpos (nonpos : v ≤ 0) : v.tdiv m = -(-v / m) := by
  rw [← Int.tdiv_eq_ediv_of_nonneg (by omega), Int.neg_tdiv, neg_neg]

theorem tmod_eq_emod (positive : 0 < m) (nonneg : 0 ≤ v.tmod m) : v.tmod m = v % m := by
  rcases le_total 0 v with up | down
  · exact Int.tmod_eq_emod_of_nonneg up
  · rw [tmod_of_nonpos down] at nonneg ⊢
    have least := Int.emod_nonneg (-v) positive.ne'
    have zero : -v % m = 0 := by omega
    rw [zero, neg_zero, eq_comm, Int.emod_eq_zero_of_dvd]
    exact (Int.dvd_neg).mp (Int.dvd_of_emod_eq_zero zero)

end Truncation

theorem Pointer.toInt_ofInt (x : Int) : Pointer.toInt (Pointer.ofInt x) = x.bmod (2 ^ 32) := by
  unfold Pointer.toInt Pointer.ofInt
  rw [BitVec.ofNat_toNat, BitVec.setWidth_eq, BitVec.toInt_ofInt]

section Arithmetic

variable {player d2 : Int}

def upper (player : Int) : Int :=
  if player % 65536 < 32768 then player % 65536 else player % 65536 - 65536

theorem upper_nonneg_iff : 0 ≤ upper player ↔ player % 2 ^ 16 < 2 ^ 15 := by
  unfold upper
  split <;> omega

theorem upper_eq_iff (known : 0 ≤ player ∧ player < 2 ^ 31) :
    upper player = player ↔ player < 2 ^ 15 := by
  unfold upper
  split <;> omega

theorem toInt_data2 (low : 0 ≤ d2) (high : d2 < 65536) :
    Pointer.toInt (Pointer.ofInt (d2 + player * playerPos)) = d2 + upper player * 65536 := by
  rw [Pointer.toInt_ofInt, Int.bmod_def]
  unfold upper playerPos
  split <;> split <;> omega

theorem earg_eq (low : 0 ≤ d2) (high : d2 < 65536) (h : Int) :
    (d2 + h * 65536).tmod playerPos = if d2 = 0 ∨ 0 ≤ h then d2 else d2 - 65536 := by
  unfold playerPos
  rcases le_or_gt 0 h with up | down
  · rw [if_pos (Or.inr up), Int.tmod_eq_emod_of_nonneg (by omega)]
    omega
  · rw [tmod_of_nonpos (by omega)]
    split <;> omega

theorem player_eq (low : 0 ≤ d2) (high : d2 < 65536) {h : Int} (up : 0 ≤ h) :
    (d2 + h * 65536).tdiv playerPos = h := by
  unfold playerPos
  rw [Int.tdiv_eq_ediv_of_nonneg (by omega)]
  omega

theorem unpack_of_nonneg {v : Int} (nonneg : 0 ≤ v) :
    unpackLoc v = v % 16 ∧ unpackPos v = v / 16 % 16 ∧ unpackExtra v = v / 256 := by
  unfold unpackLoc unpackPos unpackExtra locMax posMax
  rw [Int.tmod_eq_emod_of_nonneg nonneg, Int.tdiv_eq_ediv_of_nonneg nonneg,
    Int.tmod_eq_emod_of_nonneg (by omega), Int.tdiv_eq_ediv_of_nonneg nonneg]
  exact ⟨rfl, rfl, rfl⟩

theorem unpack_of_nonpos {v : Int} (nonpos : v ≤ 0) :
    unpackLoc v = -(-v % 16) ∧ unpackPos v = -(-v / 16 % 16) ∧
      unpackExtra v = -(-v / 256) := by
  unfold unpackLoc unpackPos unpackExtra locMax posMax
  rw [tmod_of_nonpos nonpos, tdiv_of_nonpos nonpos, tmod_of_nonpos (by omega),
    tdiv_of_nonpos nonpos, neg_neg]
  exact ⟨rfl, rfl, rfl⟩

variable {loc pos extra h : Int}

theorem unpack_locposE (locs : 0 ≤ loc ∧ loc < 8) (slots : 0 ≤ pos ∧ pos < 12)
    (extras : 0 ≤ extra ∧ extra < 16) :
    let e := (packLocposE loc pos extra + h * 65536).tmod playerPos
    (unpackLoc e = loc ∧ unpackPos e = pos ∧ unpackExtra e = extra) ↔
      packLocposE loc pos extra = 0 ∨ 0 ≤ h := by
  have packed : packLocposE loc pos extra = loc + pos * 16 + extra * 256 := by
    unfold packLocposE locMax posMax
    omega
  intro e
  have earg : e = _ := earg_eq (by omega) (by omega) h
  rw [packed] at earg ⊢
  split at earg
  · rename_i fits
    obtain ⟨fst, snd, third⟩ := unpack_of_nonneg (by omega : 0 ≤ e)
    rw [fst, snd, third]
    omega
  · rename_i spoilt
    obtain ⟨fst, snd, third⟩ := unpack_of_nonpos (by omega : e ≤ 0)
    rw [fst, snd, third]
    omega

theorem unpack_locpos (locs : 0 ≤ loc ∧ loc < 8) (slots : 0 ≤ pos ∧ pos < 12) :
    let e := (packLocpos loc pos + h * 65536).tmod playerPos
    (unpackLoc e = loc ∧ unpackPos e = pos) ↔ packLocpos loc pos = 0 ∨ 0 ≤ h := by
  have packed : packLocpos loc pos = loc + pos * 16 := by
    unfold packLocpos locMax
    omega
  intro e
  have earg : e = _ := earg_eq (by omega) (by omega) h
  rw [packed] at earg ⊢
  split at earg
  · rename_i fits
    obtain ⟨fst, snd, _⟩ := unpack_of_nonneg (by omega : 0 ≤ e)
    rw [fst, snd]
    omega
  · rename_i spoilt
    obtain ⟨fst, snd, _⟩ := unpack_of_nonpos (by omega : e ≤ 0)
    rw [fst, snd]
    omega

theorem unpack_whole (locs : 0 ≤ loc ∧ loc < 8) :
    (loc + h * 65536).tmod playerPos = loc ↔ loc = 0 ∨ 0 ≤ h := by
  rw [earg_eq (by omega) (by omega)]
  split <;> omega

theorem unpack_amount {player change : Int} (locs : 0 ≤ loc ∧ loc < 16)
    (points : -255 ≤ change ∧ change ≤ 255) (known : 0 < player ∧ player < 2 ^ 31) :
    let v := Pointer.toInt (Pointer.ofInt (change * 16 + loc + player * playerPos))
    ((v.tmod playerPos).tmod 16 = loc ∧ ((v.tmod playerPos).tdiv 16).tmod 256 = change ∧
        v.tdiv playerPos = player) ↔
      player < 2 ^ 15 ∧ 0 ≤ change := by
  intro v
  rcases le_or_gt 0 change with hlt | less
  · have value : v = change * 16 + loc + upper player * 65536 :=
      toInt_data2 (by omega) (by omega)
    have same := upper_eq_iff ⟨known.1.le, known.2⟩
    rcases lt_or_ge (upper player) 0 with negative | up
    · have := same.not.mp (by omega)
      have read : v.tdiv playerPos ≤ 0 := by
        rw [value, playerPos, tdiv_of_nonpos (by omega)]
        omega
      constructor
      · rintro ⟨-, -, hf⟩
        omega
      · omega
    · have earg := earg_eq (by omega : 0 ≤ change * 16 + loc) (by omega) (upper player)
      rw [if_pos (Or.inr up)] at earg
      have read := player_eq (by omega : 0 ≤ change * 16 + loc) (by omega) up
      rw [value, earg, read, Int.tmod_eq_emod_of_nonneg (by omega),
        Int.tdiv_eq_ediv_of_nonneg (by omega), Int.tmod_eq_emod_of_nonneg (by omega)]
      constructor
      · rintro ⟨-, -, hf⟩
        exact ⟨same.mp hf, hlt⟩
      · rintro ⟨small, -⟩
        exact ⟨by omega, by omega, same.mpr small⟩
  · -- the points borrow from the player
    have borrowed : change * 16 + loc + player * playerPos =
        (change * 16 + loc + 65536) + (player - 1) * playerPos := by
      unfold playerPos
      omega
    have value : v = change * 16 + loc + 65536 + upper (player - 1) * 65536 := by
      rw [← toInt_data2 (by omega) (by omega), ← borrowed]
    refine ⟨?_, by omega⟩
    rintro ⟨-, -, hf⟩
    exfalso
    rcases lt_or_ge (upper (player - 1)) 0 with negative | up
    · rw [value, playerPos, tdiv_of_nonpos (by omega)] at hf
      omega
    · rw [value, player_eq (by omega) (by omega) up] at hf
      unfold upper at hf
      split at hf <;> omega

end Arithmetic

/-- When a handler gets back what was packed: the player fits into 15 bits where it is
read, and elsewhere its lower 16 bits do, or there is nothing under it, or nothing is read; and
there are not less than no points to fix. -/
def Job.Fits (job : Job) (player : Player) : Prop :=
  match job with
  | .fixarmor .. => player.val < 2 ^ 15
  | .fixinternal _ change => player.val < 2 ^ 15 ∧ 0 ≤ change.val
  | .removepart _ _ true => True
  | _ => job.d2 = 0 ∨ player.val % 2 ^ 16 < 2 ^ 15

structure Lossless (player : Player) (job : Job) : Prop where
  recovered : job.function.unpack (job.data2 player) = job.packed player
  /-- Its event counts in no check about another section, slot or type. -/
  slots : ∀ (e : Event) (before after : List Event) (mech : Pointer) (loc : Section)
    (part : Slot) (t : EventType), e.type = job.type → e.data2 = job.data2 player →
    t ∈ repairingTypes ++ scrappingTypes →
    ¬(job.loc = loc.val ∧ job.part = some (part.val : Int) ∧ job.type = t) →
    someoneRepairingS (before ++ e :: after) mech loc.val part.val t =
      someoneRepairingS (before ++ after) mech loc.val part.val t
  /-- Nor in one about another section or type; sections from 8 on are rear sides. -/
  sections : ∀ (e : Event) (before after : List Event) (mech : Pointer) (loc : Fin 16)
    (t : EventType), e.type = job.type → e.data2 = job.data2 player →
    ¬(job.loc = loc.val ∧ job.type = t) →
    someoneAtLoc (before ++ e :: after) mech loc.val t =
      someoneAtLoc (before ++ after) mech loc.val t

section Checks

variable {job : Job} {player : Player}

theorem packLocpos_parts (loc : Section) (part : Slot) :
    packLocpos loc.val part.val % 16 = loc.val ∧
      packLocpos loc.val part.val / 16 % 16 = part.val := by
  have := loc.isLt
  have := part.isLt
  unfold packLocpos locMax
  omega

theorem packLocposE_parts (loc : Section) (part : Slot) (extra : Int) :
    packLocposE loc.val part.val extra % 16 = loc.val ∧
      packLocposE loc.val part.val extra / 16 % 16 = part.val := by
  have := loc.isLt
  have := part.isLt
  unfold packLocposE locMax posMax
  omega

theorem Job.d2_loc (job : Job) : job.d2 % 16 = job.loc := by
  cases job with
  | removegun loc part | removepart loc part _ | replacegun loc part _ | reload loc part
  | unload loc part _ => exact (packLocposE_parts loc part _).1
  | removesection loc _ => exact (packLocposE_parts loc 0 _).1
  | repairgun loc part | fixenhcrit loc part | replacepart loc part | repairpart loc part =>
    exact (packLocpos_parts loc part).1
  | fixarmor loc rear change =>
    have := loc.isLt
    simp only [Job.d2, Job.loc]
    split <;> omega
  | fixinternal loc change =>
    have := loc.isLt
    simp only [Job.d2, Job.loc]
    omega
  | reattach loc | replacesuit loc | reseal loc =>
    have := loc.isLt
    simp only [Job.d2, Job.loc]
    omega

theorem Job.d2_part (job : Job) {part : Int} (about : job.part = some part) :
    job.d2 / 16 % 16 = part := by
  cases job with
  | removegun loc slot | removepart loc slot _ | replacegun loc slot _ | reload loc slot
  | unload loc slot _ =>
    rw [← Option.some.inj about]
    exact (packLocposE_parts loc slot _).2
  | repairgun loc slot | fixenhcrit loc slot | replacepart loc slot | repairpart loc slot =>
    rw [← Option.some.inj about]
    exact (packLocpos_parts loc slot).2
  | removesection | fixarmor | fixinternal | reattach | replacesuit | reseal =>
    exact absurd about (by simp [Job.part])

theorem data2_low (job : Job) (player : Player) :
    Pointer.toInt (job.data2 player) % 16 = job.d2 % 16 ∧
      Pointer.toInt (job.data2 player) / 16 % 16 = job.d2 / 16 % 16 := by
  rw [Job.data2, Pointer.toInt_ofInt, Int.bmod_def]
  unfold playerPos
  split <;> omega

theorem techCheckLoc_sound {e : Event} {loc : Nat} (data2 : e.data2 = job.data2 player)
    (hf : techCheckLoc loc e = true) : job.loc = loc := by
  have read : (Pointer.toInt e.data2).tmod 16 = loc := by
    simpa [techCheckLoc] using hf
  rw [tmod_eq_emod (by omega) (by omega), data2, (data2_low job player).1, job.d2_loc] at read
  exact read

theorem techCheckLocpart_sound {e : Event} {loc part : Nat} {slot : Int}
    (data2 : e.data2 = job.data2 player) (about : job.part = some slot)
    (hf : techCheckLocpart loc part e = true) : job.loc = loc ∧ slot = part := by
  obtain ⟨section', slot'⟩ : (Pointer.toInt e.data2).tmod 16 = loc ∧
      ((Pointer.toInt e.data2).tdiv 16).tmod 16 = part := by
    simpa [techCheckLocpart, unpackLoc, unpackPos, locMax, posMax] using hf
  have there := tmod_eq_emod (by omega) (by omega : 0 ≤ (Pointer.toInt e.data2).tmod 16)
  have below : (Pointer.toInt e.data2).tdiv 16 = Pointer.toInt e.data2 / 16 := by
    have whole := Int.tmod_add_mul_tdiv (Pointer.toInt e.data2) 16
    omega
  rw [below, tmod_eq_emod (by omega) (by omega), data2, (data2_low job player).2,
    job.d2_part about] at slot'
  rw [there, data2, (data2_low job player).1, job.d2_loc] at section'
  exact ⟨section', slot'⟩

theorem tmpFlag_of_not {e : Event} {check : Event → Bool} {t : EventType} {mech : Pointer}
    (passed : e.type = t → check e = false) (pre post : List Event) :
    tmpFlag (pre ++ e :: post) t mech check = tmpFlag (pre ++ post) t mech check := by
  unfold tmpFlag
  rw [List.countP_append, List.countP_append, List.countP_cons_of_neg]
  intro counted
  simp only [Bool.and_eq_true, beq_iff_eq] at counted
  obtain ⟨⟨⟨-, type⟩, -⟩, hf⟩ := counted
  rw [passed type] at hf
  exact Bool.false_ne_true hf

theorem Job.part_of_type (job : Job) (type : job.type ∈ repairingTypes ++ scrappingTypes) :
    ∃ slot, job.part = some slot := by
  cases job with
  | removegun | removepart | replacegun | repairgun | fixenhcrit | replacepart | repairpart
  | reload | unload => exact ⟨_, rfl⟩
  | removesection | fixarmor | fixinternal | reattach | replacesuit | reseal =>
    exact absurd type (by simp [Job.type, repairingTypes, scrappingTypes])

end Checks

section Recovery

variable {f : TechFunction}

theorem recovered_locposE (loc : Section) (part : Slot) {extra : Int}
    (small : 0 ≤ extra ∧ extra < 16) (player : Player)
    (reads : ∀ data2, f.unpack data2 =
      { loc := some (unpackLoc ((Pointer.toInt data2).tmod playerPos))
        pos := some (unpackPos ((Pointer.toInt data2).tmod playerPos))
        extra := some (unpackExtra ((Pointer.toInt data2).tmod playerPos)), player := none }) :
    f.unpack (Pointer.ofInt (packLocposE loc.val part.val extra + player.val * playerPos)) =
        { loc := some (loc.val : Int), pos := some (part.val : Int), extra := some extra
          player := none } ↔
      packLocposE loc.val part.val extra = 0 ∨ player.val % 2 ^ 16 < 2 ^ 15 := by
  have loc' := loc.isLt
  have part' := part.isLt
  have packed : packLocposE loc.val part.val extra = loc.val + part.val * 16 + extra * 256 := by
    unfold packLocposE locMax posMax
    omega
  rw [reads, toInt_data2 (by omega) (by omega), ← upper_nonneg_iff]
  exact Iff.trans (by simp) (unpack_locposE (by omega) (by omega) small)

theorem recovered_locpos (loc : Section) (part : Slot) (player : Player)
    (reads : ∀ data2, f.unpack data2 =
      { loc := some (unpackLoc ((Pointer.toInt data2).tmod playerPos))
        pos := some (unpackPos ((Pointer.toInt data2).tmod playerPos))
        extra := none, player := none }) :
    f.unpack (Pointer.ofInt (packLocpos loc.val part.val + player.val * playerPos)) =
        { loc := some (loc.val : Int), pos := some (part.val : Int), extra := none
          player := none } ↔
      packLocpos loc.val part.val = 0 ∨ player.val % 2 ^ 16 < 2 ^ 15 := by
  have loc' := loc.isLt
  have part' := part.isLt
  have packed : packLocpos loc.val part.val = loc.val + part.val * 16 := by
    unfold packLocpos locMax
    omega
  rw [reads, toInt_data2 (by omega) (by omega), ← upper_nonneg_iff]
  exact Iff.trans (by simp) (unpack_locpos (by omega) (by omega))

theorem recovered_loc (loc : Section) (player : Player)
    (reads : ∀ data2, f.unpack data2 =
      { loc := some ((Pointer.toInt data2).tmod playerPos), pos := none, extra := none
        player := none }) :
    f.unpack (Pointer.ofInt (loc.val + player.val * playerPos)) =
        { loc := some (loc.val : Int), pos := none, extra := none, player := none } ↔
      (loc.val : Int) = 0 ∨ player.val % 2 ^ 16 < 2 ^ 15 := by
  have loc' := loc.isLt
  rw [reads, toInt_data2 (by omega) (by omega), ← upper_nonneg_iff,
    ← unpack_whole (by omega)]
  simp

theorem recovered_amount {loc change : Int} (side : 0 ≤ loc ∧ loc < 16)
    (points : -255 ≤ change ∧ change ≤ 255) (player : Player)
    (reads : ∀ data2, f.unpack data2 =
      { loc := some (((Pointer.toInt data2).tmod playerPos).tmod 16), pos := none
        extra := some ((((Pointer.toInt data2).tmod playerPos).tdiv 16).tmod 256)
        player := some ((Pointer.toInt data2).tdiv playerPos) }) :
    f.unpack (Pointer.ofInt (change * 16 + loc + player.val * playerPos)) =
        { loc := some loc, pos := none, extra := some change, player := some player.val } ↔
      player.val < 2 ^ 15 ∧ 0 ≤ change := by
  rw [reads]
  exact Iff.trans (by simp) (unpack_amount side points player.property)

end Recovery

theorem recovered_iff (player : Player) (job : Job) :
    job.function.unpack (job.data2 player) = job.packed player ↔ job.Fits player := by
  cases job with
  | removegun loc part =>
    exact recovered_locposE loc part (by decide) player fun _ => rfl
  | removepart loc part failed =>
    cases failed with
    | false => exact recovered_locposE loc part (by decide) player fun _ => rfl
    | true => exact iff_of_true rfl trivial
  | removesection loc failed =>
    exact recovered_locposE loc 0 (by cases failed <;> decide) player fun _ => rfl
  | replacegun loc part brand =>
    exact recovered_locposE loc part (by have := brand.isLt; omega) player fun _ => rfl
  | reload loc part => exact recovered_locposE loc part (by decide) player fun _ => rfl
  | unload loc part full =>
    exact recovered_locposE loc part (by cases full <;> decide) player fun _ => rfl
  | repairgun loc part | fixenhcrit loc part | replacepart loc part | repairpart loc part =>
    exact recovered_locpos loc part player fun _ => rfl
  | reattach loc | replacesuit loc | reseal loc =>
    exact recovered_loc loc player fun _ => rfl
  | fixarmor loc rear change =>
    have side : 0 ≤ (Job.fixarmor loc rear change).loc ∧
        (Job.fixarmor loc rear change).loc < 16 := by
      have := loc.isLt
      simp only [Job.loc]
      split <;> omega
    have hlt := change.property
    have both := @recovered_amount .repairarmor _ _ side (by omega : -255 ≤ change.val ∧ _)
      player fun _ => rfl
    rw [and_iff_left hlt.1] at both
    exact both
  | fixinternal loc change =>
    have := loc.isLt
    exact recovered_amount (by omega) change.property player fun _ => rfl

/-- Packing is lossless exactly for the jobs that fit. -/
theorem packing_lossless_iff (player : Player) (job : Job) :
    Lossless player job ↔ job.Fits player := by
  rw [← recovered_iff]
  refine ⟨fun lossless => lossless.recovered, fun recovered => ⟨recovered, ?_, ?_⟩⟩
  · intro e before after mech loc part t type data2 asked distinct
    refine tmpFlag_of_not (fun same => ?_) before after
    rw [Bool.eq_false_iff]
    intro found
    obtain ⟨slot, about⟩ := job.part_of_type (by rwa [← type, same])
    obtain ⟨there, at'⟩ := techCheckLocpart_sound data2 about found
    exact distinct ⟨there, by rw [about, at'], by rw [← type, same]⟩
  · intro e before after mech loc t type data2 distinct
    refine tmpFlag_of_not (fun same => ?_) before after
    rw [Bool.eq_false_iff]
    exact fun found => distinct ⟨techCheckLoc_sound data2 found, by rw [← type, same]⟩

/-- Player 32768 replaces a part, and player 5 repairs structure that a command has
raised to 12 points of 10: the handlers read other sections, or other points. -/
theorem packing_loses :
    ¬ Lossless ⟨32768, by decide⟩ (.replacepart 3 2) ∧
      ∃ job, techFixinternal 3 12 10 none = some job ∧ ¬ Lossless ⟨5, by decide⟩ job := by
  refine ⟨fun lossless => absurd lossless.recovered (by decide), _, rfl, fun lossless =>
    absurd lossless.recovered (by decide)⟩

end BattletechMux.EventQueue
