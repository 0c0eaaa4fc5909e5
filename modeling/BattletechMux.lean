import BattletechMux.Unit.SeenCount
import BattletechMux.Unit.Symmetry
import BattletechMux.Event.TechRoundTrip
import BattletechMux.MapFile.RoundTrip
import BattletechMux.Match.Captures
import BattletechMux.Econ.Inventory
import BattletechMux.Terrain.Restoration
import BattletechMux.Unit.TowLine
import BattletechMux.Lock.Keeping
import BattletechMux.Queue.Timely
import BattletechMux.Queue.Deposits
import BattletechMux.Cache.Transparency
import BattletechMux.Attr.Text
import BattletechMux.Names.Agreement
import BattletechMux.Channels.Membership
import BattletechMux.Channels.AliasMap
import BattletechMux.Postal.Mailboxes
import BattletechMux.Moves.Contents
import BattletechMux.Net.Accounting
import BattletechMux.Unit.TagPairs
import BattletechMux.Unit.Swarmers
import BattletechMux.Net.Programs
import BattletechMux.Event.Dangling
import BattletechMux.Quota.Balance
import BattletechMux.Players.Index
import BattletechMux.Terrain.HexBits
import BattletechMux.Objects.Parents
import BattletechMux.Ammo.Expenditure
import BattletechMux.Mines.ChainReactions
import BattletechMux.Autopilot.Execution
import BattletechMux.Unit.MapChange
import BattletechMux.Characters.Survival
import BattletechMux.Unit.Bounds
import BattletechMux.Unit.SightOrder
import BattletechMux.Weapons.TicSets
import BattletechMux.Parts.Completeness
import BattletechMux.Radio.Routes
import BattletechMux.Bays.Doors
import BattletechMux.Macro.References
import BattletechMux.Forward.RoundTrip
import BattletechMux.Pools.Soundness
import BattletechMux.Glue.BitText
import BattletechMux.Money.Conservation
import BattletechMux.Postal.FolderMap
import BattletechMux.Tracing.ExactLines
import BattletechMux.Parsing.Pieces
import BattletechMux.Ecm.Flags
import BattletechMux.Myfifo.Queues
import BattletechMux.Objects.Growth
import BattletechMux.Net.InputLines
