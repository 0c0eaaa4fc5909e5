/-
Module: BattletechMux.Mines.Explosions
Purpose: Mines on the list of a map and what sets them off: make_mine_explode,
  possible_mine_explosion and explode_mines from mine.c, del_mapobj and mapobj_del from map.obj.c.
Trusted boundary: which units are hurt and what they set off comes with each explosion; the range
  between hexes is any; the tons of a cause stay what they are during the walk; the bits of hexes,
  messages, damage and the decorations that a blast adds from the free list are left out
-/
import BattletechMux.Foundation.Chain
import Mathlib

namespace BattletechMux.Mines

open Function (update)
open LinkedMemory

abbrev Cell := Nat

inductive Kind
  | standard | inferno | command | vibra | trigger | strigger
deriving DecidableEq, Repr

/-- What a mine has in its node: the hex, `datac`, `datas` and `datai`. -/
structure Mine where
  x : Int
  y : Int
  datac : Kind
  datas : Int
  datai : Int
deriving DecidableEq

def mineMin : Int := 5

/-- The links of nodes, the list of mines of the map and the list of free nodes. -/
structure Heap where
  head : Option Cell
  next : Cell → Option Cell
  free : Option Cell

/-- `del_mapobj`, whose search goes through so many nodes. -/
def delMapobj (limit : Nat) (heap : Heap) (mapob : Cell) : Heap :=
  match SingleList.remove limit ⟨heap.head, heap.next⟩ mapob with
  | none => heap
  | some list => ⟨list.head, update list.next mapob heap.free, some mapob⟩

/-- The loop of `mapobj_del` from a node on, for so many nodes. -/
def mapobjDel (limit : Nat) (mine : Cell → Mine) (x y : Int) :
    Nat → Heap → Option Cell → Option Heap
  | _, heap, none => some heap
  | 0, _, some _ => none
  | nodes + 1, heap, some foo =>
    let foo2 := heap.next foo
    if (mine foo).x = x ∧ (mine foo).y = y then
      mapobjDel limit mine x y nodes (delMapobj limit heap foo) foo2
    else mapobjDel limit mine x y nodes heap foo2

/-! ## Explosions -/

/-- A unit of so many tons sets off mines in a hex, or a message does on a channel. -/
inductive Cause
  | unit (tons x y : Int)
  | channel (chn : Int)
deriving DecidableEq

/-- What a cause does with a mine: nothing, an end to the search, or an explosion. -/
inductive Fate
  | pass | stop | explode
deriving DecidableEq

def Kind.vibro (datac : Kind) : Bool :=
  datac == .vibra || datac == .trigger || datac == .strigger

/-- `make_mine_explode` with a mine that is only a trigger harms nothing, whatever the reason. -/
def makeMineExplode (mine : Mine) : Fate :=
  if mine.datac = .trigger ∨ mine.datac = .strigger then .pass else .explode

/-- `possible_mine_explosion` with one mine; `farther` says whether two hexes are farther from each
other than some range. -/
def possibleMineExplosion (farther : Int × Int → Int × Int → Int → Bool) (tons x y : Int)
    (o : Mine) : Fate :=
  let mdis := (tons - 20).tdiv 10
  if o.x = x ∧ o.y = y then
    match o.datac with
    | .trigger | .vibra => if o.datai ≤ tons then makeMineExplode o else .stop
    | .command => .stop
    | .standard | .inferno | .strigger => makeMineExplode o
  else if o.datac.vibro ∧ o.datai < tons ∧ (o.x - x).natAbs ≤ mdis ∧ (o.y - y).natAbs ≤ mdis then
    if farther (x, y) (o.x, o.y) ((tons - o.datai).tdiv 10) then .pass else makeMineExplode o
  else .pass

/-- `explode_mines` with one mine. -/
def explodeMines (chn : Int) (o : Mine) : Fate :=
  if o.datac = .command ∧ o.datai = chn then makeMineExplode o else .pass

def Cause.fate (farther : Int × Int → Int × Int → Int → Bool) : Cause → Mine → Fate
  | .unit tons x y, o => possibleMineExplosion farther tons x y o
  | .channel chn, o => explodeMines chn o

/-- `update_mine`, for the mines that stay. -/
def updateMine (o : Mine) : Mine :=
  if o.datac = .standard ∨ o.datac = .inferno then
    let i := (o.datas * 2).tdiv 3
    if mineMin ≤ i then { o with datas := i } else o
  else o

/-- Whether `make_mine_explode` removes the mines of the hex afterwards. -/
def Mine.goes (o : Mine) : Bool :=
  match o.datac with
  | .standard | .inferno => decide (o.datas < mineMin)
  | .command | .vibra => true
  | .trigger | .strigger => false

/-! ## Calls under way -/

/-- A call that has not begun, one at the top of its loop, or one in an explosion, which goes on
with the node it has saved. -/
inductive Frame
  | start (cause : Cause)
  | walk (cause : Cause) (o : Option Cell)
  | after (cause : Cause) (o : Cell) (goes : Bool) (o2 : Option Cell)

/-- The nodes, the calls under way, all that there was to set off mines, which mines have exploded,
and which of these are to go. -/
structure State where
  mine : Cell → Mine
  heap : Heap
  stack : List Frame
  causes : List Cause
  exploded : List Cell
  condemned : List Cell

/-- The next step of the topmost call; when it makes a mine explode, the units that are hurt set off
mines in turn.  `none` when all calls are over. -/
def State.step (farther : Int × Int → Int × Int → Int → Bool) (limit : Nat) (s : State)
    (hurt : List Cause) : Option State :=
  match s.stack with
  | [] => none
  | .start cause :: rest => some { s with stack := .walk cause s.heap.head :: rest }
  | .walk _ none :: rest => some { s with stack := rest }
  | .walk cause (some o) :: rest =>
    let o2 := s.heap.next o
    match cause.fate farther (s.mine o) with
    | .pass => some { s with stack := .walk cause o2 :: rest }
    | .stop => some { s with stack := rest }
    | .explode =>
      let goes := (s.mine o).goes
      some { s with
        mine := update s.mine o (updateMine (s.mine o))
        stack := hurt.map .start ++ .after cause o goes o2 :: rest
        causes := hurt ++ s.causes
        exploded := o :: s.exploded
        condemned := if goes then o :: s.condemned else s.condemned }
  | .after cause o goes o2 :: rest =>
    if goes then
      (mapobjDel limit s.mine (s.mine o).x (s.mine o).y limit s.heap s.heap.head).map fun heap =>
        { s with heap := heap, stack := .walk cause o2 :: rest }
    else some { s with stack := .walk cause o2 :: rest }

/-- The state after so many steps, with what the units that each hurts set off. -/
def State.after (farther : Int × Int → Int × Int → Int → Bool) (limit : Nat)
    (hurt : Nat → List Cause) (s : State) : Nat → Option State
  | 0 => some s
  | steps + 1 => (s.after farther limit hurt steps).bind fun s' => s'.step farther limit (hurt steps)

/-- What is to come when a unit or a message sets off mines. -/
def State.begin (mine : Cell → Mine) (heap : Heap) (cause : Cause) : State :=
  ⟨mine, heap, [.start cause], [cause], [], []⟩

/-- The nodes whose fields the next step reads through what a call has saved. -/
def State.reads (s : State) : List Cell :=
  match s.stack with
  | .walk _ (some o) :: _ => [o]
  | .after _ o true _ :: _ => [o]
  | _ => []

end BattletechMux.Mines
