/-
Module: BattletechMux.Quota.Building
Purpose: Money and building quota. create_obj charges the creator for a new object, destroy_obj pays
  its owner back, link_exit, do_chown and chown_all give objects to other owners, from object.c,
  create.c, set.c, walkdb.c and predicates.c.
Trusted boundary: powers, locks, names and who controls what are given with each call; sacfactor
  is not 0; the other attributes, flags and places of objects are left out
-/
import Mathlib.Logic.Function.Basic

namespace BattletechMux.Quota

open Function (update)

abbrev Dbref := Nat

/-- An `int`: an amount of money or a quota. -/
abbrev Word := BitVec 32

def god : Dbref := 1

/-- `Typeof`. -/
inductive ObjType
  | room | thing | exit | player | garbage
deriving DecidableEq, Repr

/-- `mudconf`. -/
structure Conf where
  quotas : Bool
  digcost : Word
  createmin : Word
  createmax : Word
  opencost : Word
  linkcost : Word
  robotcost : Word
  paystart : Word
  sacfactor : Word
  sacadjust : Word
  roomQuota : Word
  thingQuota : Word
  exitQuota : Word
  playerQuota : Word
  startQuota : Word

/-- `OBJECT_ENDOWMENT` and `OBJECT_DEPOSIT`. -/
def Conf.objectEndowment (conf : Conf) (cost : Word) : Word :=
  cost.sdiv conf.sacfactor + conf.sacadjust
def Conf.objectDeposit (conf : Conf) (pennies : Word) : Word :=
  (pennies - conf.sacadjust) * conf.sacfactor

structure Db where
  dbTop : Nat
  typeOf : Dbref → ObjType
  owner : Dbref → Dbref
  pennies : Dbref → Word
  /-- A_RQUOTA. -/
  rquota : Dbref → Word
  robot : Dbref → Bool
  /-- What `IS_CLEAN` asks for besides the type and the owner. -/
  loose : Dbref → Bool
  freelist : Option Dbref
  link : Dbref → Option Dbref

structure Powers where
  wizard : Dbref → Bool
  freeMoney : Dbref → Bool
  freeQuota : Dbref → Bool
  immortal : Dbref → Bool

/-- `Good_obj` and `Good_owner`. -/
def Db.goodObj (db : Db) (x : Dbref) : Bool := decide (x < db.dbTop)
def Db.goodOwner (db : Db) (x : Dbref) : Bool := db.goodObj x && db.typeOf x == .player

def Db.isClean (db : Db) (x : Dbref) : Bool :=
  db.typeOf x == .garbage && db.loose x && db.owner x == god

/-- `Wizard(who) || Wizard(Owner(who)) || Free_Money(who) || Free_Money(Owner(who))`. -/
def Powers.paysNothing (powers : Powers) (db : Db) (who : Dbref) : Bool :=
  powers.wizard who || powers.wizard (db.owner who) || powers.freeMoney who ||
    powers.freeMoney (db.owner who)

/-- The test of `payfor` and `giveto`. -/
def Powers.keepsMoney (powers : Powers) (db : Db) (who : Dbref) : Bool :=
  powers.paysNothing db who || powers.immortal who || powers.immortal (db.owner who)

def payfor (db : Db) (powers : Powers) (who : Dbref) (cost : Word) : Bool × Db :=
  if powers.keepsMoney db who then (true, db)
  else
    let who := db.owner who
    let tmp := db.pennies who
    if cost.sle tmp then (true, { db with pennies := update db.pennies who (tmp - cost) })
    else (false, db)

def giveto (db : Db) (powers : Powers) (who : Dbref) (pennies : Word) : Db :=
  if powers.keepsMoney db who then db
  else
    let who := db.owner who
    { db with pennies := update db.pennies who (db.pennies who + pennies) }

def addQuota (db : Db) (who : Dbref) (payment : Word) : Db :=
  { db with rquota := update db.rquota who (db.rquota who + payment) }

/-- `pay_quota`; `none` when the quota does not suffice. -/
def payQuota (db : Db) (powers : Powers) (who : Dbref) (cost : Word) : Option Db :=
  if cost.toInt ≤ 0 then some db
  else
    let quota := db.rquota (db.owner who) - cost
    if quota.toInt < 0 ∧ powers.freeQuota who = false ∧
        powers.freeQuota (db.owner who) = false then none
    else some { db with rquota := update db.rquota (db.owner who) quota }

/-- `canpayfees`; `none` when it refuses. -/
def canpayfees (conf : Conf) (db : Db) (powers : Powers) (who : Dbref) (pennies quota : Word) :
    Option Db := do
  if powers.paysNothing db who = false ∧ (db.pennies (db.owner who)).slt pennies then none
  else
    let db ← if conf.quotas then payQuota db powers who quota else some db
    some (payfor db powers who pennies).2

/-- What `create_obj` charges and endows a new object with: `cost`, `quota` and `value`.  `cost`
tells a robot from a player. -/
structure Price where
  cost : Word
  quota : Word
  value : Word
  selfOwned : Bool

def Conf.price (conf : Conf) (objtype : ObjType) (cost : Word) : Option Price :=
  match objtype with
  | .room => some ⟨conf.digcost, conf.roomQuota, 0, false⟩
  | .thing =>
    let cost := if cost.slt conf.createmin then conf.createmin else cost
    let cost := if conf.createmax.slt cost then conf.createmax else cost
    some ⟨cost, conf.thingQuota, conf.objectEndowment cost, false⟩
  | .exit => some ⟨conf.opencost, conf.exitQuota, 0, false⟩
  | .player =>
    if cost ≠ 0 then some ⟨conf.robotcost, conf.playerQuota, 0, false⟩
    else some ⟨0, conf.startQuota, conf.paystart, true⟩
  | .garbage => none

/-- The next object: from the freelist, if it is clean, or from the end. -/
def newObject (db : Db) : Dbref × Db :=
  match db.freelist with
  | some obj =>
    if db.goodObj obj && db.isClean obj then (obj, { db with freelist := db.link obj })
    else (db.dbTop, { db with freelist := none, dbTop := db.dbTop + 1 })
  | none => (db.dbTop, { db with dbTop := db.dbTop + 1 })

def setUp (db : Db) (obj : Dbref) (objtype : ObjType) (owner : Dbref) (price : Price)
    (robot : Bool) : Db :=
  { db with
    typeOf := update db.typeOf obj objtype
    owner := update db.owner obj (if price.selfOwned then obj else owner)
    pennies := update db.pennies obj price.value
    rquota := update db.rquota obj (if objtype = .player then price.quota else 0)
    robot := update db.robot obj robot
    loose := update db.loose obj false
    link := update db.link obj none }

/-- The owner of a new object; a new player gets himself later. -/
def Db.newOwner (db : Db) (player : Option Dbref) (price : Price) : Option Dbref :=
  if price.selfOwned then some 0
  else
    player.bind fun player =>
      if db.goodObj player && db.goodObj (db.owner player) then some (db.owner player) else none

def payForNew (conf : Conf) (db : Db) (powers : Powers) (player : Option Dbref) (price : Price) :
    Option Db :=
  match player with
  | some player => canpayfees conf db powers player price.cost price.quota
  | none => some db

/-- `create_obj`; `none` when it refuses.  `okname` tells whether a player may have the name,
`inherits` whether the creator may have robots. -/
def createObj (conf : Conf) (db : Db) (powers : Powers) (player : Option Dbref)
    (objtype : ObjType) (cost : Word) (okname inherits : Bool) : Option (Dbref × Db) := do
  let price ← conf.price objtype cost
  if objtype = .player ∧ okname = false then none
  else
    let owner ← db.newOwner player price
    let robot := decide (objtype = .player ∧ price.selfOwned = false)
    if robot = true ∧ inherits = false then none
    else
      let db ← payForNew conf db powers player price
      let (obj, db) := newObject db
      some (obj, setUp db obj objtype owner price robot)

/-- What an object of the type gives back when it goes: `val` and `quota`. -/
def Conf.refund (conf : Conf) (db : Db) (obj : Dbref) : Word × Word :=
  match db.typeOf obj with
  | .room => (conf.digcost, conf.roomQuota)
  | .thing => (conf.objectDeposit (db.pennies obj), conf.thingQuota)
  | .exit => (conf.opencost, conf.exitQuota)
  | .player => (if db.robot obj then conf.robotcost else 0, conf.playerQuota)
  | .garbage => (1, 1)

def destroyObj (conf : Conf) (db : Db) (powers : Powers) (obj : Dbref) : Option Db :=
  if db.goodObj obj then
    let owner := db.owner obj
    let db :=
      if db.goodOwner owner = true ∧ owner ≠ obj then
        let (val, quota) := conf.refund db obj
        let db := giveto db powers owner val
        if conf.quotas then addQuota db owner quota else db
      else db
    some { db with
      typeOf := update db.typeOf obj .garbage
      owner := update db.owner obj god
      pennies := update db.pennies obj 0
      rquota := update db.rquota obj 0
      robot := update db.robot obj false
      loose := update db.loose obj true
      link := update db.link obj none }
  else none

/-- `link_exit`; `none` when it refuses.  `allowed` tells whether the locks and the controls
let the player link the exit there. -/
def linkExit (conf : Conf) (db : Db) (powers : Powers) (player exit : Dbref) (allowed : Bool) :
    Option Db := do
  if allowed = false then none
  else
    let other := db.owner exit ≠ db.owner player
    let cost := if other then conf.linkcost + conf.opencost else conf.linkcost
    let quot := if other then conf.exitQuota else 0
    let db ← canpayfees conf db powers player cost quot
    if db.owner exit ≠ db.owner player then
      let db := giveto db powers (db.owner exit) conf.opencost
      let db := addQuota db (db.owner exit) quot
      some { db with owner := update db.owner exit (db.owner player) }
    else some db

/-- `cost` and `quota` of `do_chown`. -/
def Conf.chownPrice (conf : Conf) (db : Db) (thing : Dbref) : Word × Word :=
  match db.typeOf thing with
  | .room => (conf.digcost, conf.roomQuota)
  | .thing => (conf.objectDeposit (db.pennies thing), conf.thingQuota)
  | .exit => (conf.opencost, conf.exitQuota)
  | .player => (conf.robotcost, conf.playerQuota)
  | .garbage => (1, 1)

/-- `do_chown` of an object that was found; `none` when it refuses.  `owner` is the player that
was named, if there is one, and `allowed` tells whether the controls let it be. -/
def doChown (conf : Conf) (db : Db) (powers : Powers) (player thing : Dbref)
    (owner : Option Dbref) (allowed : Bool) : Option Db := do
  let (cost, quota) := conf.chownPrice db thing
  let owner ← owner
  if db.typeOf thing = .player ∧ player ≠ god then none
  else if allowed = false then none
  else
    let db ← canpayfees conf db powers owner cost quota
    let db := giveto db powers (db.owner thing) cost
    let db := if conf.quotas then addQuota db (db.owner thing) quota else db
    some { db with
      owner := update db.owner thing (if player = god then owner else db.owner owner) }

/-- The body of the loop of `chown_all`: the owners, `quota_out` and `quota_in`. -/
def chownOne (conf : Conf) (db : Db) (fromPlayer toPlayer : Dbref)
    (state : (Dbref → Dbref) × Word × Word) (i : Dbref) : (Dbref → Dbref) × Word × Word :=
  let (owner, quotaOut, quotaIn) := state
  if owner i = fromPlayer ∧ owner i ≠ i then
    match db.typeOf i with
    | .player => (update owner i i, quotaOut + conf.playerQuota, quotaIn)
    | .thing =>
      (update owner i toPlayer, quotaOut + conf.thingQuota, quotaIn - conf.thingQuota)
    | .room => (update owner i toPlayer, quotaOut + conf.roomQuota, quotaIn - conf.roomQuota)
    | .exit => (update owner i toPlayer, quotaOut + conf.exitQuota, quotaIn - conf.exitQuota)
    | .garbage => (update owner i toPlayer, quotaOut, quotaIn)
  else state

def chownAll (conf : Conf) (db : Db) (fromPlayer toPlayer : Dbref) : Db :=
  let fromPlayer := if db.typeOf fromPlayer ≠ .player then db.owner fromPlayer else fromPlayer
  let toPlayer := if db.typeOf toPlayer ≠ .player then db.owner toPlayer else toPlayer
  let (owner, quotaOut, quotaIn) :=
    (List.range db.dbTop).foldl (chownOne conf db fromPlayer toPlayer) (db.owner, 0, 0)
  let db := { db with owner := owner }
  let db := addQuota db fromPlayer quotaOut
  addQuota db toPlayer quotaIn

inductive BuildOp
  | create (powers : Powers) (player : Option Dbref) (objtype : ObjType) (cost : Word)
      (okname inherits : Bool)
  | destroy (powers : Powers) (obj : Dbref)
  | linkExit (powers : Powers) (player exit : Dbref) (allowed : Bool)
  | chown (powers : Powers) (player thing : Dbref) (owner : Option Dbref) (allowed : Bool)
  | chownAll (fromPlayer toPlayer : Dbref)

/-- One command, and whether it was carried out.  Matching finds objects of the database, and
`do_link` calls `link_exit` for exits only. -/
def Db.step (conf : Conf) (db : Db) : BuildOp → Bool × Db
  | .create powers player objtype cost okname inherits =>
    match createObj conf db powers player objtype cost okname inherits with
    | some (_, db) => (true, db)
    | none => (false, db)
  | .destroy powers obj =>
    match destroyObj conf db powers obj with
    | some db => (true, db)
    | none => (false, db)
  | .linkExit powers player exit allowed =>
    if db.goodObj exit ∧ db.typeOf exit = .exit then
      match linkExit conf db powers player exit allowed with
      | some db => (true, db)
      | none => (false, db)
    else (false, db)
  | .chown powers player thing owner allowed =>
    if db.goodObj thing then
      match doChown conf db powers player thing owner allowed with
      | some db => (true, db)
      | none => (false, db)
    else (false, db)
  | .chownAll fromPlayer toPlayer => (true, chownAll conf db fromPlayer toPlayer)

end BattletechMux.Quota
