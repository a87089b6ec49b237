import Destiny.Visible
import Destiny.Level
import Destiny.WorldEntry
import Destiny.Exclusive
import Destiny.Password
import Destiny.Ownership
import Destiny.Roster
import Destiny.Receive
import Destiny.Bounds
import Destiny.Ids
import Destiny.Delivery
import Destiny.Mutual
import Destiny.Picture
import Destiny.Leftover
import Destiny.Framing
import Destiny.Teleport
import Destiny.InGame
import Destiny.SpawnIds
import Destiny.Threads
import Destiny.Fetched
import Destiny.InRange
import Destiny.Owners
import Destiny.Entry
import Destiny.Relay
import Destiny.Look
import Destiny.Loading
import Destiny.Selection
import Destiny.Refused
import Destiny.AutoCreate
import Destiny.CharList
import Destiny.Serving
import Destiny.Storage
import Destiny.Shop
import Destiny.Commands
import Destiny.ItemList
import Destiny.NpcFile
import Destiny.Terminated
import Destiny.Movement
import Destiny.StartChar
import Destiny.IdTable
import Destiny.PacketWriter
import Destiny.Config
import Destiny.TwoLists
import Destiny.EqItems
import Destiny.WorldIds
import Destiny.HeldIds
import Destiny.NpcIds
import Destiny.OwnHash
import Destiny.OwnSheet
import Destiny.Saved
import Destiny.Created
