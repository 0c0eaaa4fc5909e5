/-
Module: BattletechMux.Characters.Sheets
Purpose: Character sheets of players, from btechstats.c: how they are stored in four attributes and
  retrieved, the short names of the values, and that the texts are read back.
Trusted boundary: the two hash tables are searches for the first entry of a name; texts of attributes
  fit their buffers; times and ints have 32 bits, and what is
  beyond wraps; the thresholds of the table stay as they are
-/
import Mathlib.Logic.Function.Basic
import BattletechMux.Foundation.CText

namespace BattletechMux.Characters

section

open CText (cString)

abbrev Text := List Char

inductive Kind
  | value | skill | advantage | attribute
deriving DecidableEq, Repr

structure CharValue where
  name : String
  kind : Kind
  flag : Nat
  xpthreshold : Int

/-! ## Flags -/

def athletic : Nat := 0x0001

def mental : Nat := 0x0002

def physical : Nat := 0x0004

def social : Nat := 0x0008

def careerCavalry : Nat := 0x0010

def careerBmech : Nat := 0x0020

def careerAero : Nat := 0x0040

def careerArtillery : Nat := 0x0080

def careerDropship : Nat := 0x0100

def careerTechmech : Nat := 0x0200

def careerTechveh : Nat := 0x0400

def careerTech : Nat := careerTechmech ||| careerTechveh

def careerMisc : Nat := 0x0800

def careerAcadmisc : Nat := 0x1000

def careerRecon : Nat := 0x2000

def skXp : Nat := 0x4000

def charAdvValue : Nat := 0

def charAdvBool : Nat := 1

def charAdvExcept : Nat := 2

def charValues : List CharValue :=
  [⟨"XP", .value, 0, 0⟩, ⟨"MaxXP", .value, 0, 0⟩, ⟨"Type", .value, 0, 0⟩,
    ⟨"Level", .value, 0, 0⟩, ⟨"Package", .value, 0, 0⟩, ⟨"Lives", .value, 0, 0⟩,
    ⟨"Bruise", .value, 0, 0⟩, ⟨"Lethal", .value, 0, 0⟩, ⟨"Unused1", .value, 0, 0⟩,
    ⟨"Ambidextrous", .advantage, charAdvBool, 0⟩, ⟨"Bloodname", .advantage, charAdvBool, 0⟩,
    ⟨"Combat_Sense", .advantage, charAdvBool, 0⟩, ⟨"Contact", .advantage, charAdvValue, 0⟩,
    ⟨"Dropship", .advantage, charAdvValue, 0⟩, ⟨"EI_Implant", .advantage, charAdvBool, 0⟩,
    ⟨"Exceptional_Attribute", .advantage, charAdvExcept, 0⟩,
    ⟨"Extra_Edge", .advantage, charAdvValue, 0⟩, ⟨"Land_Grant", .advantage, charAdvValue, 0⟩,
    ⟨"Reputation", .advantage, charAdvBool, 0⟩, ⟨"Sixth_Sense", .advantage, charAdvBool, 0⟩,
    ⟨"Title", .advantage, charAdvValue, 0⟩, ⟨"Toughness", .advantage, charAdvBool, 0⟩,
    ⟨"Wealth", .advantage, charAdvValue, 0⟩, ⟨"Well-Connected", .advantage, charAdvValue, 0⟩,
    ⟨"Well_Equipped", .advantage, charAdvValue, 0⟩, ⟨"Build", .attribute, 0, 0⟩,
    ⟨"Reflexes", .attribute, 0, 0⟩, ⟨"Intuition", .attribute, 0, 0⟩, ⟨"Learn", .attribute, 0, 0⟩,
    ⟨"Charisma", .attribute, 0, 0⟩, ⟨"Acrobatics", .skill, athletic, 50⟩,
    ⟨"Administration", .skill, mental, 50⟩, ⟨"Alternate_Identity", .skill, mental, 50⟩,
    ⟨"Appraisal", .skill, mental, 50⟩, ⟨"Archery", .skill, athletic, 50⟩,
    ⟨"Blade", .skill, athletic ||| careerMisc, 50⟩,
    ⟨"Bureaucracy", .skill, social ||| careerMisc, 50⟩, ⟨"Climbing", .skill, athletic, 50⟩,
    ⟨"Comm-Conventional", .skill, mental ||| careerTech, 150⟩,
    ⟨"Comm-Hyperpulse", .skill, mental ||| careerTech, 50⟩,
    ⟨"Computer", .skill, mental ||| careerTech, 50⟩,
    ⟨"Cryptography", .skill, mental ||| careerTech, 50⟩, ⟨"Demolitions", .skill, mental, 50⟩,
    ⟨"Disguise", .skill, mental ||| careerRecon, 50⟩,
    ⟨"Drive", .skill, physical ||| careerCavalry, 3000⟩, ⟨"Drive-Naval", .skill, physical, 3000⟩,
    ⟨"Engineering", .skill, mental ||| careerTech, 50⟩,
    ⟨"Escape_Artist", .skill, physical ||| careerRecon, 50⟩, ⟨"Forgery", .skill, mental, 50⟩,
    ⟨"Gambling", .skill, mental, 50⟩,
    ⟨"Gunnery-Aerospace", .skill, skXp ||| physical ||| careerAero, 1000⟩,
    ⟨"Gunnery-Artillery", .skill, skXp ||| physical ||| careerArtillery, 500⟩,
    ⟨"Gunnery-Battlemech", .skill, skXp ||| physical ||| careerBmech, 3000⟩,
    ⟨"Gunnery-BSuit", .skill, skXp ||| physical, 500⟩,
    ⟨"Gunnery-Conventional", .skill, skXp ||| physical ||| careerCavalry, 3000⟩,
    ⟨"Gunnery-Spacecraft", .skill, skXp ||| physical ||| careerDropship, 50⟩,
    ⟨"Gunnery-Spotting", .skill, physical ||| careerArtillery, 50⟩,
    ⟨"Impersonation", .skill, social, 50⟩, ⟨"Interrogation", .skill, social ||| careerRecon, 50⟩,
    ⟨"Jump_Pack", .skill, athletic, 50⟩, ⟨"Leadership", .skill, social ||| careerAcadmisc, 50⟩,
    ⟨"Medtech", .skill, mental ||| careerMisc, 300⟩, ⟨"Navigation", .skill, mental, 25⟩,
    ⟨"Negotiation", .skill, social, 25⟩, ⟨"Perception", .skill, mental ||| careerRecon, 150⟩,
    ⟨"Piloting-Aerospace", .skill, physical ||| careerAero, 2500⟩,
    ⟨"Piloting-Battlemech", .skill, physical ||| careerBmech, 3000⟩,
    ⟨"Piloting-Battlesuit", .skill, athletic, 3000⟩, ⟨"Piloting-BSuit", .skill, physical, 3000⟩,
    ⟨"Piloting-Spacecraft", .skill, physical ||| careerDropship, 50⟩,
    ⟨"Protocol", .skill, social, 50⟩, ⟨"Quickdraw", .skill, physical, 50⟩,
    ⟨"Running", .skill, skXp ||| athletic, 100⟩, ⟨"Riding", .skill, athletic, 50⟩,
    ⟨"Scrounge", .skill, social ||| careerTech, 50⟩,
    ⟨"Security_Systems", .skill, mental ||| careerRecon, 50⟩, ⟨"Seduction", .skill, social, 50⟩,
    ⟨"Small_Arms", .skill, physical ||| careerMisc, 50⟩,
    ⟨"Stealth", .skill, physical ||| careerRecon, 50⟩,
    ⟨"Strategy", .skill, mental ||| careerAcadmisc, 50⟩, ⟨"Streetwise", .skill, social, 50⟩,
    ⟨"Support_Weapons", .skill, physical ||| careerMisc, 50⟩, ⟨"Survival", .skill, mental, 50⟩,
    ⟨"Swimming", .skill, athletic, 50⟩, ⟨"Tactics", .skill, mental ||| careerAcadmisc, 50⟩,
    ⟨"Technician-Aerospace", .skill, skXp ||| mental ||| careerTechveh, 50⟩,
    ⟨"Technician-Battlemech", .skill, skXp ||| mental ||| careerTechmech, 600⟩,
    ⟨"Technician-Battlesuit", .skill, skXp ||| mental, 300⟩,
    ⟨"Technician-Electronics", .skill, skXp ||| mental ||| careerTech, 50⟩,
    ⟨"Technician-Mechanic", .skill, skXp ||| mental ||| careerTechveh, 400⟩,
    ⟨"Technician-Weapons", .skill, skXp ||| mental ||| careerTech, 300⟩,
    ⟨"Technician-Spacecraft", .skill, skXp ||| mental, 300⟩,
    ⟨"Throwing_Weapons", .skill, physical, 50⟩, ⟨"Tinker", .skill, mental ||| careerTech, 50⟩,
    ⟨"Tracking", .skill, mental ||| careerRecon, 50⟩, ⟨"Training", .skill, social, 50⟩,
    ⟨"Unarmed_Combat", .skill, athletic ||| careerMisc, 50⟩,
    ⟨"Zero-G_Operations", .skill, physical, 50⟩]

def numCharvalues : Nat := charValues.length

def eeNumber : Nat := 11

def livesNumber : Nat := 5

def xpMax : Int := 256 * 256 * 256

def entryOf (code : Nat) : CharValue := charValues.getD code ⟨"", .value, 0, 0⟩

def kindOf (code : Nat) : Kind := (entryOf code).kind

/-! ## Names -/

/-- What `strncpy` of three characters leaves. -/
def strncpy3 (name : Text) : Text := name.take 3 ++ List.replicate (3 - name.length) '\x00'

/-- The copies that `init_btechstats` makes from every capital letter on. -/
def fromCapitals : Text → Text
  | [] => []
  | c :: rest => if c.isUpper then strncpy3 (c :: rest) ++ fromCapitals rest else fromCapitals rest

/-- `char_values_short`. -/
def shortName (code : Nat) : Text :=
  let name := (entryOf code).name.toList
  let tmpbuf := cString (fromCapitals name)
  if tmpbuf.length ≤ 3 then name.take 5 else tmpbuf

/-- The names that `playervaluehash` and `playervaluehash2` have, with their codes. -/
def lowerNames : List Text := charValues.map fun value => value.name.toList.map Char.toLower

def lowerShortNames : List Text :=
  (List.range numCharvalues).map fun code => (shortName code).map Char.toLower

/-- `char_getvaluecode`, without -1. -/
def charGetvaluecode (name : Text) : Option Nat :=
  let tmpbuf := name.map Char.toLower
  match lowerNames.findIdx? (· = tmpbuf) with
  | some code => some code
  | none => lowerShortNames.findIdx? (· = tmpbuf)

end

section

open Function (update)
open CText (decimal scanInt stored)

abbrev Dbref := Int

/-- PSTATS. -/
@[ext]
structure Stats where
  values : Nat → BitVec 8
  lastUse : Nat → BitVec 32
  xp : Nat → BitVec 32

structure Modes where
  health : Bool
  skills : Bool
  attrs : Bool
  advs : Bool
deriving DecidableEq

def valuesAll : Modes := ⟨true, true, true, true⟩

def valuesCo : Modes := ⟨false, true, true, false⟩

def valuesSkills : Modes := ⟨false, true, false, false⟩

structure Record where
  health : Text
  skills : Text
  attrs : Text
  advs : Text

/-- The objects, `mudstate.now` and the target that is cached. -/
structure Game where
  isPlayer : Dbref → Bool
  record : Dbref → Record
  now : BitVec 32
  cachedTargetChar : Dbref
  cachedSkill : Nat
  cachedResult : Int

/-! ## Values -/

namespace Stats

def zero : Stats := ⟨fun _ => 0, fun _ => 0, fun _ => 0⟩

def charXpBonus (s : Stats) (code : Nat) : Int := (s.xp code).toInt.tdiv xpMax

/-- `char_getstatvaluebycode`. -/
def getstatvaluebycode (s : Stats) (code : Nat) : Int :=
  (s.values code).toNat + if kindOf code = .skill then s.charXpBonus code else 0

/-- `char_gvalue`. -/
def gvalue (s : Stats) (name : String) : Int :=
  match charGetvaluecode name.toList with
  | none => -1
  | some code => s.getstatvaluebycode code

/-- `char_setstatvaluebycode`. -/
def setstatvaluebycode (s : Stats) (code : Nat) (value : Int) : Stats :=
  let values :=
    if code = eeNumber then
      update s.values livesNumber
        (BitVec.ofInt 8 ((s.values livesNumber).toNat + (value - (s.values code).toNat)))
    else s.values
  { s with values := update values code (BitVec.ofInt 8 value) }

/-- `char_svalue`. -/
def svalue (s : Stats) (name : String) (value : Int) : Stats :=
  match charGetvaluecode name.toList with
  | none => s
  | some code => s.setstatvaluebycode code value

def createNewStats : Stats :=
  svalue ⟨fun i => if kindOf i = .attribute then 1 else 0, fun _ => 0, fun _ => 0⟩ "lives" 1

/-! ## Texts -/

/-- What `store_health` stores. -/
def healthText (s : Stats) : Text :=
  decimal (s.gvalue "Bruise") ++ ',' :: decimal (s.gvalue "Lethal")

/-- What `store_attrs` stores. -/
def attrsText (s : Stats) : Text :=
  decimal (s.gvalue "Build") ++ ',' :: (decimal (s.gvalue "Reflexes") ++
    ',' :: (decimal (s.gvalue "Intuition") ++ ',' :: (decimal (s.gvalue "Learn") ++
      ',' :: decimal (s.gvalue "Charisma"))))

/-- What `generic_store_stuff` writes for one value. -/
def entryText (s : Stats) (i : Nat) : Text :=
  if s.xp i ≠ 0 then
    shortName i ++ ':' :: (decimal (s.values i).toNat ++ ',' :: (decimal (s.xp i).toInt ++
      ',' :: (decimal (s.lastUse i).toInt ++ ['/'])))
  else shortName i ++ ':' :: (decimal (s.values i).toNat ++ ['/'])

/-- Which values `generic_store_stuff` writes. -/
def belongs (flag : Bool) (i : Nat) : Bool :=
  if flag then kindOf i == .skill else i == livesNumber || kindOf i == .advantage

def genericStoreStuff (s : Stats) (flag : Bool) : Text :=
  (List.range numCharvalues).flatMap fun i =>
    if s.values i = 0 ∧ s.xp i = 0 then []
    else if belongs flag i then s.entryText i
    else []

end Stats

/-- Up to so many numbers of `sscanf` with a comma between two of them. -/
def scanInts : Nat → Text → List Int
  | 0, _ => []
  | numbers + 1, s =>
    match scanInt s with
    | none => []
    | some (i, ',' :: rest) => stored i :: scanInts numbers rest
    | some (i, _) => [stored i]

/-- `%[A-Za-z_-]`. -/
def isNameChar (c : Char) : Bool := c.isAlpha || c == '_' || c == '-'

/-- `sscanf` of `%[A-Za-z_-]:%d,%d,%d`, when it finds the name and a number. -/
def scanEntry (c : Text) : Option (Text × Int × Int × Int) :=
  let buf := c.takeWhile isNameChar
  if buf = [] then none
  else match c.dropWhile isNameChar with
  | ':' :: rest =>
    match scanInts 3 rest with
    | [] => none
    | i1 :: more => some (buf, i1, more.getD 0 0, more.getD 1 0)
  | _ => none

namespace Stats

/-- What `generic_retrieve_stuff` sets for a name it knows. -/
def retrieved (s : Stats) (sn : Nat) (i1 i2 i3 : Int) : Stats where
  values := update s.values sn (BitVec.ofInt 8 i1)
  xp := if i2 ≠ 0 then update s.xp sn (BitVec.ofInt 32 i2) else s.xp
  lastUse := if i3 ≠ 0 then update s.lastUse sn (BitVec.ofInt 32 i3) else s.lastUse

/-- The loop of `generic_retrieve_stuff`, so many times. -/
def retrieveFrom : Nat → Text → Stats → Stats
  | 0, _, s => s
  | times + 1, c, s =>
    match scanEntry c with
    | none => s
    | some (buf, i1, i2, i3) =>
      let s :=
        match charGetvaluecode buf with
        | none => s
        | some sn => s.retrieved sn i1 i2 i3
      match (c.dropWhile (· ≠ '/')).tail with
      | [] => s
      | rest => retrieveFrom times rest s

def genericRetrieveStuff (s : Stats) (c : Text) : Stats := retrieveFrom c.length c s

end Stats

/-! ## Storing and retrieving -/

namespace Game

def setRecord (g : Game) (player : Dbref) (record : Record) : Game :=
  { g with record := update g.record player record }

def storeStats (g : Game) (player : Dbref) (s : Stats) (modes : Modes) : Game :=
  if g.isPlayer player then
    let r := g.record player
    let r := if modes.health then { r with health := s.healthText } else r
    let r := if modes.attrs then { r with attrs := s.attrsText } else r
    let r := if modes.advs then { r with advs := s.genericStoreStuff false } else r
    let r := if modes.skills then { r with skills := s.genericStoreStuff true } else r
    let cachedTargetChar :=
      if (modes.advs || modes.skills) && player == g.cachedTargetChar then -1
      else g.cachedTargetChar
    { g.setRecord player r with cachedTargetChar := cachedTargetChar }
  else g

/-- A sheet that cannot be read becomes a new one, which is stored. -/
def renew (g : Game) (player : Dbref) : Game × Stats :=
  (g.storeStats player Stats.createNewStats valuesAll, Stats.createNewStats)

def retrieveHealth (g : Game) (player : Dbref) (s : Stats) : Game × Stats :=
  match scanInts 2 (g.record player).health with
  | [i1, i2] => (g, (s.svalue "Bruise" i1).svalue "Lethal" i2)
  | _ => g.renew player

def retrieveAttrs (g : Game) (player : Dbref) (s : Stats) : Game × Stats :=
  match scanInts 5 (g.record player).attrs with
  | [i1, i2, i3, i4, i5] =>
    (g, ((((s.svalue "Build" i1).svalue "Reflexes" i2).svalue "Intuition" i3).svalue "Learn"
      i4).svalue "Charisma" i5)
  | _ => g.renew player

def retrieveStats (g : Game) (player : Dbref) (modes : Modes) : Game × Stats :=
  let (g, s) := if modes.health then g.retrieveHealth player Stats.zero else (g, Stats.zero)
  let s := if modes.advs then s.genericRetrieveStuff (g.record player).advs else s
  let (g, s) := if modes.attrs then g.retrieveAttrs player s else (g, s)
  let s := if modes.skills then s.genericRetrieveStuff (g.record player).skills else s
  (g, s)

def charSetvaluebycode (g : Game) (player : Dbref) (code : Nat) (value : Int) : Game :=
  let (g, hm) := g.retrieveStats player valuesAll
  g.storeStats player (hm.setstatvaluebycode code value) valuesAll

end Game

/-! ## Targets and experience -/

namespace Stats

def skillBase (s : Stats) (code : Nat) : Option Int :=
  let flag := (entryOf code).flag
  if flag &&& athletic ≠ 0 then some (s.gvalue "build" + s.gvalue "reflexes")
  else if flag &&& physical ≠ 0 then some (s.gvalue "reflexes" + s.gvalue "intuition")
  else if flag &&& mental ≠ 0 then some (s.gvalue "intuition" + s.gvalue "learn")
  else if flag &&& social ≠ 0 then some (s.gvalue "intuition" + s.gvalue "charisma")
  else none

/-- `char_getskilltargetbycode_base` without experience, which is not cached. -/
def noxpTarget (s : Stats) (code : Nat) : Int :=
  if kindOf code ≠ .skill then 18
  else match s.skillBase code with
  | none => 18
  | some val => 18 - val - (s.values code).toNat

/-- A loop of `figure_xp_bonus` that divides the threshold so many times. -/
def lowered : Nat → Int → Int
  | 0, t => t
  | times + 1, t => lowered times (t.tdiv 3)

/-- A loop of `figure_xp_bonus` that multiplies the threshold so many times. -/
def raised : Nat → Int → Int
  | 0, t => t
  | times + 1, t => raised times ((t * 3).bmod (2 ^ 32))

/-- The last loop of `figure_xp_bonus`, at most so many times. -/
def bonusLevels : Nat → Int → Int → Int
  | 0, _, _ => 0
  | times + 1, tx, t =>
    if t < tx then 1 + bonusLevels times (tx - t) ((t * 3).bmod (2 ^ 32)) else 0

def figureXpBonus (s : Stats) (code : Nat) : Int :=
  let t := (entryOf code).xpthreshold
  if t ≤ 0 then 0
  else
    let btar := s.noxpTarget code
    let t := raised (4 - btar).toNat (lowered (btar - 4).toNat t)
    let t := if t < 1 then 1 else t
    let tx := (s.xp code).toInt.tmod xpMax
    bonusLevels tx.toNat tx t

def gainedXp (s : Stats) (code : Nat) (amount : Int) : BitVec 32 :=
  let s := { s with xp := update s.xp code (s.xp code + BitVec.ofInt 32 amount) }
  BitVec.ofInt 32 ((s.xp code).toInt.tmod xpMax + xpMax * s.figureXpBonus code)

end Stats

namespace Game

/-- `char_getskilltargetbycode_base` with experience. -/
def skilltargetBase (g : Game) (player : Dbref) (s : Stats) (code : Nat) (modifier : Int) :
    Game × Int :=
  if kindOf code ≠ .skill then (g, 18)
  else if g.cachedTargetChar = player ∧ g.cachedSkill = code then (g, g.cachedResult + modifier)
  else match s.skillBase code with
  | none => (g, 18)
  | some val =>
    let skill := s.getstatvaluebycode code
    if skill = -1 then (g, 18)
    else
      ({ g with cachedTargetChar := player, cachedSkill := code, cachedResult := 18 - val - skill },
        18 - val - skill + modifier)

def charGetskilltargetbycode (g : Game) (player : Dbref) (code : Nat) (modifier : Int) :
    Game × Int :=
  let (g, s) := g.retrieveStats player valuesCo
  g.skilltargetBase player s code modifier

/-- Whether `char_gainxpbycode` lets a skill gain again. -/
def mayGain (g : Game) (s : Stats) (code : Nat) : Bool :=
  (s.lastUse code + 30).slt g.now || (entryOf code).flag &&& skXp != 0

def charGainxpbycode (g : Game) (player : Dbref) (code : Nat) (amount : Int) : Game :=
  let (g, s) := g.retrieveStats player valuesCo
  if g.mayGain s code then
    let s :=
      { s with
        lastUse := update s.lastUse code g.now
        xp := update s.xp code (s.gainedXp code amount) }
    g.storeStats player s valuesSkills
  else g

def charGetxpbycode (g : Game) (player : Dbref) (code : Nat) : Int :=
  ((g.retrieveStats player valuesSkills).2.xp code).toInt.tmod xpMax

end Game

/-! ## Runs -/

/-- What happens to sheets: a value is set, experience gained, a sheet retrieved, changed and
stored, a target asked for; or time goes on. -/
inductive Op
  | set (player : Dbref) (code : Nat) (value : Int)
  | gain (player : Dbref) (code : Nat) (amount : Int)
  | store (player : Dbref) (retrieve : Modes) (change : Stats → Stats) (modes : Modes)
  | target (player : Dbref) (code : Nat) (modifier : Int)
  | time (now : BitVec 32)

def Op.player : Op → Option Dbref
  | .set player _ _ | .gain player _ _ | .store player _ _ _ | .target player _ _ => some player
  | .time _ => none

def Game.step (g : Game) : Op → Game
  | .set player code value => g.charSetvaluebycode player code value
  | .gain player code amount => g.charGainxpbycode player code amount
  | .store player retrieve change modes =>
    let (g, s) := g.retrieveStats player retrieve
    g.storeStats player (change s) modes
  | .target player code modifier => (g.charGetskilltargetbycode player code modifier).1
  | .time now => { g with now := now }

end

/-- Values whose short name is that of a value before them: Piloting-Battlesuit and
Technician-Battlesuit. -/
def shadowed : List Nat := [67, 87]

/-- The names of the values that are read and set by name, with their codes. -/
def named : List (String × Nat) :=
  [("Bruise", 6), ("Lethal", 7), ("Build", 25), ("Reflexes", 26), ("Intuition", 27), ("Learn", 28),
    ("Charisma", 29), ("lives", 5), ("build", 25), ("reflexes", 26), ("intuition", 27),
    ("learn", 28), ("charisma", 29)]

-- one evaluation for all names: most of its time goes into the texts of the table
theorem table :
    (∀ code < numCharvalues, shortName code ≠ [] ∧ (shortName code).all isNameChar = true ∧
      (code ∉ shadowed → charGetvaluecode (shortName code) = some code)) ∧
    ∀ entry ∈ named, charGetvaluecode entry.1.toList = some entry.2 := by
  decide +kernel

theorem kindOf_of_le {code : Nat} (beyond : numCharvalues ≤ code) : kindOf code = .value := by
  have missing : charValues[code]? = none := List.getElem?_eq_none beyond
  rw [kindOf, entryOf, List.getD_eq_getElem?_getD, missing]
  rfl

open List
open Function (update)
open CText (decimal scanInt stored Stops)

/-! ## Numbers -/

section Numbers

variable {i : Int} {rest : Text}

/-- An `int`. -/
def Fits (i : Int) : Prop := -2 ^ 31 ≤ i ∧ i < 2 ^ 31

theorem fits_toNat (v : BitVec 8) : Fits v.toNat := by
  have := v.isLt
  constructor <;> omega

theorem fits_toInt (v : BitVec 32) : Fits v.toInt := by
  have low := v.le_toInt
  have high := v.toInt_lt
  constructor <;> omega

theorem scanInts_comma (numbers : Nat) (fits : Fits i) (rest : Text) :
    scanInts (numbers + 1) (decimal i ++ ',' :: rest) = i :: scanInts numbers rest := by
  rw [scanInts, CText.scanInt_decimal i (CText.stops_cons (by decide) rest)]
  simp only [CText.stored_of_bounds fits.1 fits.2]

theorem scanInts_last (numbers : Nat) (fits : Fits i) (stops : Stops rest)
    (last : rest.head? ≠ some ',') : scanInts (numbers + 1) (decimal i ++ rest) = [i] := by
  rw [scanInts, CText.scanInt_decimal i stops]
  cases rest with
  | nil => simp only [CText.stored_of_bounds fits.1 fits.2]
  | cons c rest =>
    have o : c ≠ ',' := by simpa using last
    split
    · simp_all
    · rename_i eq
      simp_all
    · rename_i eq
      obtain ⟨rfl, -⟩ := Prod.mk.inj (Option.some.inj eq)
      rw [CText.stored_of_bounds fits.1 fits.2]

end Numbers

/-! ## Entries -/

namespace Stats

variable {s t s0 : Stats} {i : Nat} {flag : Bool}

def entryBody (s : Stats) (i : Nat) : Text :=
  shortName i ++ ':' :: (decimal (s.values i).toNat ++
    if s.xp i ≠ 0 then ',' :: (decimal (s.xp i).toInt ++ ',' :: decimal (s.lastUse i).toInt) else [])

theorem entryText_eq (s : Stats) (i : Nat) : s.entryText i = s.entryBody i ++ ['/'] := by
  rw [entryText, entryBody]
  split_ifs with experienced <;> simp

theorem scanEntry_name {name : Text} (some' : name ≠ []) (plain : name.all isNameChar = true)
    {rest : Text} {i1 : Int} {more : List Int} (numbers : scanInts 3 rest = i1 :: more) :
    scanEntry (name ++ ':' :: rest) = some (name, i1, more.getD 0 0, more.getD 1 0) := by
  have chars : ∀ c ∈ name, isNameChar c = true := all_eq_true.mp plain
  have colon : ¬ isNameChar ':' = true := by decide
  have front : (name ++ ':' :: rest).takeWhile isNameChar = name := by
    rw [takeWhile_append_of_pos chars, takeWhile_cons_of_neg colon, append_nil]
  have back : (name ++ ':' :: rest).dropWhile isNameChar = ':' :: rest := by
    rw [dropWhile_append_of_pos chars, dropWhile_cons_of_neg colon]
  rw [scanEntry, front, back]
  simp only [if_neg some', numbers]

theorem scanEntry_entryText (known : i < numCharvalues) (s : Stats) (rest : Text) :
    scanEntry (s.entryText i ++ rest) =
      some (shortName i, ((s.values i).toNat : Int), (s.xp i).toInt,
        if s.xp i ≠ 0 then (s.lastUse i).toInt else 0) := by
  obtain ⟨some', plain, -⟩ := table.1 i known
  have slash : Stops ('/' :: rest) := CText.stops_cons (by decide) rest
  rw [entryText]
  split_ifs with experienced
  · have numbers : scanInts 3 (decimal (s.values i).toNat ++ ',' :: (decimal (s.xp i).toInt ++
        ',' :: (decimal (s.lastUse i).toInt ++ '/' :: rest))) =
        [((s.values i).toNat : Int), (s.xp i).toInt, (s.lastUse i).toInt] := by
      rw [scanInts_comma 2 (fits_toNat _), scanInts_comma 1 (fits_toInt _),
        scanInts_last 0 (fits_toInt _) slash (by simp)]
    simpa using scanEntry_name some' plain numbers
  · have numbers : scanInts 3 (decimal (s.values i).toNat ++ '/' :: rest) =
        [((s.values i).toNat : Int)] := scanInts_last 2 (fits_toNat _) slash (by simp)
    rw [not_not] at experienced
    simpa [experienced] using scanEntry_name some' plain numbers

theorem slash_notMem_entryBody (known : i < numCharvalues) (s : Stats) : '/' ∉ s.entryBody i := by
  have name : '/' ∉ shortName i := fun mem =>
    absurd (all_eq_true.mp (table.1 i known).2.1 _ mem) (by decide)
  have number : ∀ n : Int, '/' ∉ decimal n := fun n mem =>
    (CText.decimal_chars mem).elim (by decide) (by decide)
  rw [entryBody]
  split_ifs with experienced <;> simp [name, number]

theorem rest_entryText (known : i < numCharvalues) (s : Stats) (rest : Text) :
    ((s.entryText i ++ rest).dropWhile (· ≠ '/')).tail = rest := by
  have pre : ∀ c ∈ s.entryBody i, decide (c ≠ '/') = true := by
    intro c mem
    rw [decide_eq_true_eq]
    rintro rfl
    exact slash_notMem_entryBody known s mem
  rw [entryText_eq, append_assoc, dropWhile_append_of_pos pre]
  rfl

theorem entryText_ne_nil (s : Stats) (i : Nat) : s.entryText i ≠ [] := by
  rw [entryText_eq]
  simp

/-! ## Retrieving what has been stored -/

def put (s s0 : Stats) (i : Nat) : Stats :=
  s0.retrieved i (s.values i).toNat (s.xp i).toInt (if s.xp i ≠ 0 then (s.lastUse i).toInt else 0)

theorem put_values (s s0 : Stats) (i j : Nat) :
    (s.put s0 i).values j = if j = i then s.values j else s0.values j := by
  rw [put, retrieved]
  by_cases eq : j = i
  · subst eq
    simp
  · simp [eq]

theorem toInt_ne_zero {v : BitVec 32} : v.toInt ≠ 0 ↔ v ≠ 0 := by
  have zero : (0 : BitVec 32).toInt = 0 := rfl
  rw [ne_eq, ne_eq, ← BitVec.toInt_inj, zero]

theorem if_update (set : Prop) [Decidable set] (f : Nat → BitVec 32) (i j : Nat) (v : BitVec 32) :
    (if set then update f i v else f) j = if j = i ∧ set then v else f j := by
  by_cases eq : j = i
  · subst eq
    by_cases sets : set <;> simp [sets]
  · by_cases sets : set <;> simp [sets, eq]

theorem put_xp (s s0 : Stats) (i j : Nat) :
    (s.put s0 i).xp j = if j = i ∧ s.xp j ≠ 0 then s.xp j else s0.xp j := by
  simp only [put, retrieved, toInt_ne_zero, BitVec.ofInt_toInt, if_update]
  by_cases eq : j = i
  · rw [eq]
  · rw [if_neg (eq ·.1), if_neg (eq ·.1)]

theorem put_lastUse (s s0 : Stats) (i j : Nat) :
    (s.put s0 i).lastUse j =
      if j = i ∧ s.xp j ≠ 0 ∧ s.lastUse j ≠ 0 then s.lastUse j else s0.lastUse j := by
  by_cases experienced : s.xp i ≠ 0
  · simp only [put, retrieved, if_pos experienced, toInt_ne_zero, BitVec.ofInt_toInt, if_update]
    by_cases eq : j = i
    · subst eq
      simp only [experienced, true_and, ne_eq, not_false_eq_true]
    · rw [if_neg (eq ·.1), if_neg (eq ·.1)]
  · simp only [put, retrieved, if_neg experienced, ne_eq, not_true_eq_false, if_false]
    rw [if_neg]
    rintro ⟨rfl, some', -⟩
    exact experienced some'

theorem retrieveFrom_nil (times : Nat) (s0 : Stats) : retrieveFrom times [] s0 = s0 := by
  cases times <;> rfl

theorem retrieveFrom_entryText (known : i < numCharvalues) (apart : i ∉ shadowed) (times : Nat)
    (s s0 : Stats) (rest : Text) :
    retrieveFrom (times + 1) (s.entryText i ++ rest) s0 = retrieveFrom times rest (s.put s0 i) := by
  rw [retrieveFrom, scanEntry_entryText known]
  simp only [(table.1 i known).2.2 apart, rest_entryText known]
  cases rest with
  | nil => exact (retrieveFrom_nil times _).symm
  | cons c rest => rfl

theorem retrieveFrom_entries {codes : List Nat}
    (good : ∀ i ∈ codes, i < numCharvalues ∧ i ∉ shadowed) (s s0 : Stats) {times : Nat}
    (hlt : codes.length ≤ times) :
    retrieveFrom times (codes.flatMap s.entryText) s0 = codes.foldl s.put s0 := by
  induction codes generalizing s0 times with
  | nil => exact retrieveFrom_nil times s0
  | cons i codes ih =>
    obtain ⟨times, rfl⟩ := Nat.exists_eq_succ_of_ne_zero (Nat.ne_of_gt (Nat.zero_lt_of_lt hlt))
    obtain ⟨known, apart⟩ := good i (by simp)
    rw [flatMap_cons, retrieveFrom_entryText known apart, foldl_cons,
      ih (fun j mem => good j (by simp [mem])) _
        (Nat.le_of_succ_le_succ hlt)]

theorem foldl_put_values (codes : List Nat) (s s0 : Stats) (j : Nat) :
    (codes.foldl s.put s0).values j = if j ∈ codes then s.values j else s0.values j := by
  induction codes generalizing s0 with
  | nil => simp
  | cons i codes ih =>
    rw [foldl_cons, ih, put_values]
    by_cases eq : j = i <;> simp [eq]

theorem foldl_put_xp (codes : List Nat) (s s0 : Stats) (j : Nat) :
    (codes.foldl s.put s0).xp j = if j ∈ codes ∧ s.xp j ≠ 0 then s.xp j else s0.xp j := by
  induction codes generalizing s0 with
  | nil => simp
  | cons i codes ih =>
    rw [foldl_cons, ih, put_xp]
    by_cases eq : j = i
    · subst eq
      by_cases sets : s.xp j ≠ 0
      · simp only [mem_cons_self, true_and, if_pos sets, ite_self]
      · rw [if_neg (sets ·.2), if_neg (sets ·.2), if_neg (sets ·.2)]
    · simp only [eq, mem_cons, false_or, false_and, if_false]

theorem foldl_put_lastUse (codes : List Nat) (s s0 : Stats) (j : Nat) :
    (codes.foldl s.put s0).lastUse j =
      if j ∈ codes ∧ s.xp j ≠ 0 ∧ s.lastUse j ≠ 0 then s.lastUse j else s0.lastUse j := by
  induction codes generalizing s0 with
  | nil => simp
  | cons i codes ih =>
    rw [foldl_cons, ih, put_lastUse]
    by_cases eq : j = i
    · subst eq
      by_cases sets : s.xp j ≠ 0 ∧ s.lastUse j ≠ 0
      · simp only [mem_cons_self, true_and, if_pos sets, ite_self]
      · rw [if_neg (sets ·.2), if_neg (sets ·.2), if_neg (sets ·.2)]
    · simp only [eq, mem_cons, false_or, false_and, if_false]

/-- The values that `generic_store_stuff` writes. -/
def writtenCodes (s : Stats) (flag : Bool) : List Nat :=
  (List.range numCharvalues).filter fun i =>
    belongs flag i && decide (s.values i ≠ 0 ∨ s.xp i ≠ 0)

theorem genericStoreStuff_eq (s : Stats) (flag : Bool) :
    s.genericStoreStuff flag = (s.writtenCodes flag).flatMap s.entryText := by
  rw [genericStoreStuff, writtenCodes]
  induction List.range numCharvalues with
  | nil => rfl
  | cons i codes ih =>
    rw [flatMap_cons, ih, filter_cons]
    by_cases none : s.values i = 0 ∧ s.xp i = 0
    · simp [none]
    · have some' : s.values i ≠ 0 ∨ s.xp i ≠ 0 := not_and_or.mp none
      rw [if_neg none, decide_eq_true some', Bool.and_true]
      split_ifs <;> rfl

def Clean (s : Stats) : Prop := ∀ i ∈ shadowed, s.values i = 0 ∧ s.xp i = 0

def overlay (s : Stats) (part : Nat → Bool) (s0 : Stats) : Stats where
  values := fun i => if part i then s.values i else s0.values i
  lastUse := fun i => if part i then if s.xp i ≠ 0 then s.lastUse i else 0 else s0.lastUse i
  xp := fun i => if part i then s.xp i else s0.xp i

def Blank (part : Nat → Bool) (s0 : Stats) : Prop :=
  ∀ i, part i = true → s0.values i = 0 ∧ s0.xp i = 0 ∧ s0.lastUse i = 0

theorem lt_of_belongs (mine : belongs flag i = true) : i < numCharvalues := by
  by_contra beyond
  have kind := kindOf_of_le (Nat.le_of_not_lt beyond)
  have lives : i ≠ livesNumber := by
    rintro rfl
    exact beyond (by decide)
  cases flag <;> simp [belongs, kind, lives] at mine

theorem not_belongs_shadowed (mem : i ∈ shadowed) : belongs false i = false := by
  revert i
  decide

theorem mem_writtenCodes : i ∈ s.writtenCodes flag ↔
    belongs flag i = true ∧ (s.values i ≠ 0 ∨ s.xp i ≠ 0) := by
  simp only [writtenCodes, mem_filter, mem_range, Bool.and_eq_true, decide_eq_true_eq]
  exact ⟨fun mem => mem.2, fun mine => ⟨lt_of_belongs mine.1, mine⟩⟩

theorem length_le_entries (codes : List Nat) (s : Stats) :
    codes.length ≤ (codes.flatMap s.entryText).length := by
  induction codes with
  | nil => exact Nat.le_refl _
  | cons i codes ih =>
    have some' := length_pos_iff.mpr (entryText_ne_nil s i)
    rw [flatMap_cons, length_append, length_cons]
    omega

theorem genericRetrieveStuff_written (clean : flag = true → s.Clean)
    (blank : Blank (belongs flag) s0) :
    s0.genericRetrieveStuff (s.genericStoreStuff flag) = s.overlay (belongs flag) s0 := by
  have good : ∀ i ∈ s.writtenCodes flag, i < numCharvalues ∧ i ∉ shadowed := by
    intro i mem
    obtain ⟨mine, some'⟩ := mem_writtenCodes.mp mem
    refine ⟨lt_of_belongs mine, fun shadow => ?_⟩
    cases flag with
    | false => exact absurd mine (by simp [not_belongs_shadowed shadow])
    | true =>
      obtain ⟨value, xp⟩ := clean rfl i shadow
      exact some'.elim (absurd value) (absurd xp)
  rw [genericRetrieveStuff, genericStoreStuff_eq,
    retrieveFrom_entries good s s0 (length_le_entries _ s)]
  ext i
  · -- what has not been written is zero on both sheets
    simp only [foldl_put_values, overlay, mem_writtenCodes]
    have blanks := blank i
    grind
  · simp only [foldl_put_lastUse, overlay, mem_writtenCodes]
    have blanks := blank i
    grind
  · simp only [foldl_put_xp, overlay, mem_writtenCodes]
    have blanks := blank i
    grind

def SamePart (part : Nat → Bool) (s t : Stats) : Prop :=
  ∀ i, part i = true →
    s.values i = t.values i ∧ s.xp i = t.xp i ∧ (s.xp i ≠ 0 → s.lastUse i = t.lastUse i)

theorem genericStoreStuff_congr (eq : SamePart (belongs flag) s t) :
    s.genericStoreStuff flag = t.genericStoreStuff flag := by
  rw [genericStoreStuff, genericStoreStuff]
  congr 1
  funext i
  cases mine : belongs flag i with
  | false => simp
  | true =>
    obtain ⟨value, xp, lastUse⟩ := eq i mine
    have e : s.entryText i = t.entryText i := by
      rw [entryText, entryText, value, xp]
      split_ifs with experienced
      · rw [lastUse (xp ▸ experienced)]
      · rfl
    rw [value, xp, e]

/-! ## Health and attributes -/

variable {name : String} {code : Nat}

theorem gvalue_named (e : (name, code) ∈ named) (s : Stats) :
    s.gvalue name = s.getstatvaluebycode code := by
  rw [gvalue, table.2 _ e]

theorem svalue_named (e : (name, code) ∈ named) (s : Stats) (value : Int) :
    s.svalue name value = s.setstatvaluebycode code value := by
  rw [svalue, table.2 _ e]

theorem getstatvaluebycode_plain (plain : kindOf i ≠ .skill) (s : Stats) :
    s.getstatvaluebycode i = (s.values i).toNat := by
  rw [getstatvaluebycode, if_neg plain, add_zero]

theorem setstatvaluebycode_plain (plain : i ≠ eeNumber) (s : Stats) (v : BitVec 8) :
    s.setstatvaluebycode i v.toNat = { s with values := update s.values i v } := by
  rw [setstatvaluebycode, if_neg plain]
  simp

def healthCodes : List Nat := [6, 7]

def attrCodes : List Nat := [25, 26, 27, 28, 29]

theorem plain_codes : ∀ code ∈ healthCodes ++ attrCodes,
    code ≠ eeNumber ∧ code ≠ livesNumber ∧ kindOf code ≠ .skill ∧ kindOf code ≠ .advantage := by
  decide

theorem gvalue_plain (e : (name, code) ∈ named)
    (plain : code ∈ healthCodes ++ attrCodes) (s : Stats) :
    s.gvalue name = (s.values code).toNat := by
  rw [gvalue_named e, getstatvaluebycode_plain (plain_codes code plain).2.2.1]

theorem svalue_plain (e : (name, code) ∈ named)
    (plain : code ∈ healthCodes ++ attrCodes) (s : Stats) (v : BitVec 8) :
    s.svalue name v.toNat = { s with values := update s.values code v } := by
  rw [svalue_named e, setstatvaluebycode_plain (plain_codes code plain).1]

theorem healthText_eq (s : Stats) :
    s.healthText = decimal (s.values 6).toNat ++ ',' :: decimal (s.values 7).toNat := by
  rw [healthText, gvalue_plain (show ("Bruise", 6) ∈ named by decide) (by decide),
    gvalue_plain (show ("Lethal", 7) ∈ named by decide) (by decide)]

theorem attrsText_eq (s : Stats) :
    s.attrsText = decimal (s.values 25).toNat ++ ',' :: (decimal (s.values 26).toNat ++
      ',' :: (decimal (s.values 27).toNat ++ ',' :: (decimal (s.values 28).toNat ++
        ',' :: decimal (s.values 29).toNat))) := by
  rw [attrsText, gvalue_plain (show ("Build", 25) ∈ named by decide) (by decide),
    gvalue_plain (show ("Reflexes", 26) ∈ named by decide) (by decide),
    gvalue_plain (show ("Intuition", 27) ∈ named by decide) (by decide),
    gvalue_plain (show ("Learn", 28) ∈ named by decide) (by decide),
    gvalue_plain (show ("Charisma", 29) ∈ named by decide) (by decide)]

theorem scanInts_end (numbers : Nat) (v : BitVec 8) :
    scanInts (numbers + 1) (decimal v.toNat) = [(v.toNat : Int)] := by
  rw [← append_nil (decimal _), scanInts_last numbers (fits_toNat v) (by simp [Stops])
    (by simp)]

theorem scanInts_healthText (s : Stats) :
    scanInts 2 s.healthText = [((s.values 6).toNat : Int), ((s.values 7).toNat : Int)] := by
  rw [healthText_eq, scanInts_comma 1 (fits_toNat _), scanInts_end]

theorem scanInts_attrsText (s : Stats) :
    scanInts 5 s.attrsText = [((s.values 25).toNat : Int), ((s.values 26).toNat : Int),
      ((s.values 27).toNat : Int), ((s.values 28).toNat : Int), ((s.values 29).toNat : Int)] := by
  rw [attrsText_eq, scanInts_comma 4 (fits_toNat _), scanInts_comma 3 (fits_toNat _),
    scanInts_comma 2 (fits_toNat _), scanInts_comma 1 (fits_toNat _), scanInts_end]

end Stats

end BattletechMux.Characters
