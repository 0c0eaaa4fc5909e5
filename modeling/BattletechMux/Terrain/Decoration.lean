/-
Module: BattletechMux.Terrain.Decoration
Purpose: Fires, smoke and other decorations of a map: the lists of map.obj.c with their nodes and
  free list, the events that wait for a node, and the terrain shown.
Trusted boundary: what a hex shows and its elevation are a pair, as the hex codes give back
-/
import BattletechMux.MapFile.Format

namespace BattletechMux.Terrain

open Function (update)
open MapFile (CChar fire smoke grassland rough heavyForest lightForest)

/-- The types of decorations: TYPE_FIRE, TYPE_SMOKE and TYPE_DEC. -/
inductive DecType
  | fire
  | smoke
  | dec
deriving DecidableEq, Repr

def decTypes : List DecType := [.fire, .smoke, .dec]

inductive Handler
  | fireSpreading
  | fireDissipation
  | smokeDissipation
deriving DecidableEq, Repr

def Handler.type : Handler → DecType
  | fireSpreading => .fire
  | fireDissipation => .fire
  | smokeDissipation => .smoke

abbrev Hex (width height : Nat) := Fin width × Fin height

structure Mapobj (width height : Nat) where
  ptr : Nat
  hex : Hex width height
  datac : CChar
  datas : BitVec 16

/-- An assignment to `datas` of the node at `ptr`. -/
def Mapobj.setDatas {width height : Nat} (ptr : Nat) (datas : BitVec 16)
    (m : Mapobj width height) : Mapobj width height :=
  if m.ptr = ptr then { m with datas := datas } else m

structure DecMap (width height : Nat) where
  terrain : Hex width height → CChar
  elevation : Hex width height → CChar
  windspeed : Int
  /-- MAPFLAG_MAPO is set. -/
  mapo : Bool
  mapobj : DecType → List (Mapobj width height)
  /-- `free_mapobjs`. -/
  free : List Nat
  /-- The next new node. -/
  fresh : Nat
  /-- The events of type EVENT_DECORATION that wait. -/
  pending : List (Nat × Handler)

def isForest (t : CChar) : Bool := t = lightForest ∨ t = heavyForest

namespace DecMap

variable {width height : Nat} (map : DecMap width height)

def fireSpeed : Int := max 20 (60 - map.windspeed)

def setTerrain (hex : Hex width height) (t : CChar) : DecMap width height :=
  { map with terrain := update map.terrain hex t }

def stopDec (ptr : Nat) : DecMap width height :=
  { map with pending := map.pending.filter (·.1 ≠ ptr) }

/-- `del_mapobj`; a node is not in a list twice. -/
def delMapobj (ptr : Nat) (type : DecType) (zap : Nat) : Option (DecMap width height) :=
  if ¬ map.mapo then some map
  else
    match (map.mapobj type).find? (·.ptr = ptr) with
    | none => if (map.mapobj type).isEmpty then none else some map
    | some mapob =>
      let map := { map with
        mapobj := update map.mapobj type ((map.mapobj type).filter (·.ptr ≠ ptr)) }
      let map := if zap &&& 2 = 0 then map.setTerrain mapob.hex mapob.datac else map
      let map := if zap ≠ 0 then map.stopDec ptr else map
      some { map with free := ptr :: map.free }

/-- `add_mapobj`, with the new node. -/
def addMapobj (type : DecType) (hex : Hex width height) (datac : CChar) (datas : BitVec 16) :
    Nat × DecMap width height :=
  let (ptr, free, fresh) := match map.free with
    | [] => (map.fresh, [], map.fresh + 1)
    | ptr :: free => (ptr, free, map.fresh)
  (ptr, { map with
    mapo := true
    mapobj := update map.mapobj type (⟨ptr, hex, datac, datas⟩ :: map.mapobj type)
    free := free
    fresh := fresh })

def findDecorations (hex : Hex width height) : CChar :=
  match (decTypes.flatMap map.mapobj).find? (·.hex = hex) with
  | some m => m.datac
  | none => 0

def mapUnderlyingTerrain (hex : Hex width height) : CChar :=
  let c := map.findDecorations hex
  if c ≠ 0 then c else map.terrain hex

def getRTerrain (hex : Hex width height) : CChar :=
  if map.terrain hex = fire ∨ map.terrain hex = smoke then map.mapUnderlyingTerrain hex
  else map.terrain hex

def delAt (hex : Hex width height) (type : DecType) : Option (DecMap width height) :=
  ((map.mapobj type).filter (·.hex = hex)).foldlM (fun map m => map.delMapobj m.ptr type 1) map

def mapobjDel (hex : Hex width height) (tt : DecType) : Option (Nat × DecMap width height) :=
  (map.delAt hex tt).map fun map' => (((map.mapobj tt).filter (·.hex = hex)).length, map')

/-- `MAPEVENT` of type EVENT_DECORATION. -/
def mapEvent (handler : Handler) (ptr : Nat) : DecMap width height :=
  { map with pending := (ptr, handler) :: map.pending }

def addDecoration (hex : Hex width height) (type : DecType) (data : CChar) (flaggo : Int) :
    Option (DecMap width height) := do
  let datac := map.getRTerrain hex
  let map ← decTypes.foldlM (fun map i => map.delAt hex i) map
  let map := map.setTerrain hex data
  let (tmpo, map) := map.addMapobj type hex datac (BitVec.ofInt 16 flaggo)
  some (if flaggo = 0 then map
    else match type with
      | .smoke => map.mapEvent .smokeDissipation tmpo
      | .fire => map.mapEvent .fireSpreading tmpo
      | .dec => map)

/-- The end of `fire_spreading_event`.  Its calls of `add_decoration` come before it as operations
of their own; with a wind direction of -90 or less, when `FindMyCoord` gives them the hex of the
fire itself, they would come inside. -/
def fireSpreadingEvent (ptr : Nat) : Option (DecMap width height) := do
  let o ← (map.mapobj .fire).find? (·.ptr = ptr)
  let datas := o.datas - BitVec.ofInt 16 map.fireSpeed
  let map := { map with
    mapobj := update map.mapobj .fire ((map.mapobj .fire).map (Mapobj.setDatas ptr datas)) }
  some (map.mapEvent (if map.fireSpeed < datas.toInt then .fireSpreading else .fireDissipation) ptr)

/-- What a forest burns to; `number` is the throw of a die. -/
def burnt (number : Nat) : CChar := if number < 3 then grassland else rough

def fireDissipationEvent (ptr number : Nat) : Option (DecMap width height) := do
  let o ← (map.mapobj .fire).find? (·.ptr = ptr)
  let map ← map.delMapobj ptr .fire 0
  some (if isForest (map.getRTerrain o.hex) then map.setTerrain o.hex (burnt number) else map)

/-- An event that waits is taken from its queue, and its function is called. -/
def runEvent (ptr : Nat) (handler : Handler) (number : Nat) : Option (DecMap width height) :=
  if (ptr, handler) ∈ map.pending then
    let map := { map with pending := map.pending.erase (ptr, handler) }
    match handler with
    | .fireSpreading => map.fireSpreadingEvent ptr
    | .fireDissipation => map.fireDissipationEvent ptr number
    | .smokeDissipation => map.delMapobj ptr .smoke 0
  else none

end DecMap

inductive Op (width height : Nat)
  | add (hex : Hex width height) (type : DecType) (data : CChar) (flaggo : Int)
  | del (hex : Hex width height) (tt : DecType)
  | event (ptr : Nat) (handler : Handler) (number : Nat)

def step {width height : Nat} (map : DecMap width height) :
    Op width height → Option (DecMap width height)
  | .add hex type data flaggo => map.addDecoration hex type data flaggo
  | .del hex tt => (map.mapobjDel hex tt).map Prod.snd
  | .event ptr handler number => map.runEvent ptr handler number

end BattletechMux.Terrain
