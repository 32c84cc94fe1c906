import Dset.Lib.Run
import Dset.Lib.CString
import Dset.Lib.SlotArray
import Dset.Hash.Types
import Dset.Hash.Timeout
import Dset.Hash.Ext
import Dset.Hash.Table
import Dset.Hash.Expire
import Dset.Hash.Change
import Dset.Hash.Add
import Dset.Hash.AddSpec
import Dset.Hash.Del
import Dset.Hash.Lookup
import Dset.Hash.Resize
import Dset.Hash.Create
import Dset.Hash.Machine
import Dset.Lib.Heap
import Dset.Hash.ResizeMemory
import Dset.Hash.Capacity
import Dset.Hash.AddSlot
import Dset.Hash.Forceadd
import Dset.Hash.Memory
import Dset.Lib.DeadlineMap
import Dset.Hash.Refinement
import Dset.Lib.Labels
import Dset.Hash.Uadt
import Dset.Hash.Fresh
import Dset.Hash.Jhash
import Dset.Hash.CallAd
import Dset.Hash.List
import Dset.Hash.Keys
import Dset.Hash.Packet
import Dset.Hash.PacketSafety
import Dset.Hash.Counters
import Dset.Lib.Parties
import Dset.Hash.Uref
import Dset.Hash.TableOwner
import Dset.Core.Netlink
import Dset.Core.Types
import Dset.Core.Commands
import Dset.Core.DumpStart
import Dset.Core.Net
import Dset.Core.References
import Dset.Core.DumpSession
import Dset.Core.DumpReferences
import Dset.Core.Names
import Dset.Core.Lookup
import Dset.User.Cache
import Dset.Lib.Program
import Dset.User.Session
import Dset.User.Tokens
import Dset.User.Listing
import Dset.User.Command
import Dset.User.ListingSpec
import Dset.User.Truncation
import Dset.User.Reader
import Dset.User.ParseArgv
import Dset.User.Query
import Dset.User.ParseSpec
import Dset.User.Items
import Dset.User.Batch
import Dset.User.Entry
import Dset.Core.CreateMemory
import Dset.User.Single
import Dset.User.Acks
import Dset.User.Moves
import Dset.User.Script
import Dset.User.Stream
import Dset.User.Delivery
import Dset.User.Received
import Dset.User.ExistFlag
import Dset.Core.CreateSize
import Dset.Hash.Layout
import Dset.Hash.TimeoutWindow
import Dset.Core.TypeRegistry
import Dset.User.TypeGet
import Dset.User.LocalArgv
import Dset.Lib.StringTable
import Dset.User.Sheet
import Dset.User.Dump
import Dset.User.ListOutput
import Dset.Lib.Memory
import Dset.User.Blob
import Dset.User.Print
import Dset.User.Values
import Dset.User.Entries
import Dset.User.EntriesSpec
import Dset.Hash.ListRun
import Dset.Hash.Comments
import Dset.Hash.SetHistory
import Dset.Hash.DumpMessage
import Dset.Hash.DumpStage
import Dset.Hash.DumpRun
import Dset.Lib.Links
import Dset.User.ListSort
import Dset.Hash.AdRequest
import Dset.Core.NamedSets
import Dset.Core.NamedSetsRun
import Dset.User.Saved
import Dset.User.Accepted
import Dset.User.Restored
import Dset.Hash.AdBatch
import Dset.User.Rejected
