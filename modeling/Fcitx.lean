import Fcitx.Lib.Ring
import Fcitx.Lib.RingHeap
import Fcitx.Lib.Run
import Fcitx.Lib.Arena
import Fcitx.Lib.Assoc
import Fcitx.Lib.Classes
import Fcitx.Lib.KeyTree
import Fcitx.Lib.Passes
import Fcitx.Lib.Sextets
import Fcitx.Lib.Visits
import Fcitx.Utils.Utf8
import Fcitx.Utils.KeyData
import Fcitx.Utils.Key
import Fcitx.Utils.Dict
import Fcitx.Utils.Utf8Codec
import Fcitx.Utils.Utf8Check
import Fcitx.Event
import Fcitx.InputContext.State
import Fcitx.InputContext.Focus
import Fcitx.InputContext.Property
import Fcitx.InputContext.Manager
import Fcitx.InputContext.FocusInvariant
import Fcitx.InputContext.PropertyFrame
import Fcitx.InputContext.Membership
import Fcitx.InputContext.FocusRun
import Fcitx.InputContext.FocusEffect
import Fcitx.InputContext.EventTrace
import Fcitx.InputContext.SharedState
import Fcitx.InputContext.Regroup
import Fcitx.InputContext.Propagation
import Fcitx.InputContext.PolicyGroups
import Fcitx.InputContext.SharedRun
import Fcitx.InputContext.Coherence
import Fcitx.InputContext.ContextTables
import Fcitx.Config.Configuration
import Fcitx.Config.PathMap
import Fcitx.Utils.HandlerMap
import Fcitx.Utils.MemoryPool
import Fcitx.Utils.PoolRun
import Fcitx.Utils.HandlerChain
import Fcitx.Utils.HandlerObjects
import Fcitx.Addon.Manager
import Fcitx.Addon.Load
import Fcitx.Addon.LoadOrder
import Fcitx.Addon.Registry
import Fcitx.MainLoop.Timeout
import Fcitx.MainLoop.TimeoutPass
import Fcitx.MainLoop.Io
import Fcitx.MainLoop.IoPass
import Fcitx.MainLoop.IoRun
import Fcitx.MainLoop.IoHandle
import Fcitx.InputContext.StoredValue
import Fcitx.Instance.Dispatch
import Fcitx.Instance.LocalMethod
import Fcitx.Instance.State
import Fcitx.DBus.NameWatch
import Fcitx.InputContext.DestroyNotice
import Fcitx.Ipc.Frontend
import Fcitx.Ipc.SenderTable
import Fcitx.Ipc.Ownership
import Fcitx.Utils.StringUtils
import Fcitx.Config.Foreach
import Fcitx.Config.Ini
import Fcitx.Config.IniPrintable
import Fcitx.Config.IniValue
import Fcitx.Config.IniLines
import Fcitx.Config.IniTree
import Fcitx.Config.IniRoundTrip
import Fcitx.Config.Description
import Fcitx.ConfigDesc.Names
import Fcitx.ConfigDesc.Source
import Fcitx.Lib.Slot
import Fcitx.Rules.Handlers
import Fcitx.Rules.Chunks
import Fcitx.Rules.Accumulate
import Fcitx.Rules.Splitting
import Fcitx.Lib.UpStack
import Fcitx.Utils.StringReplace
import Fcitx.Utils.ReplaceCopies
import Fcitx.Utils.DictRemove
import Fcitx.Addon.Cleanup
import Fcitx.Ime.Groups
import Fcitx.Ime.MethodList
import Fcitx.Instance.StateCopy
import Fcitx.Instance.TriggerKey
import Fcitx.InputContext.SurroundingText
import Fcitx.Utils.CleanPath
import Fcitx.Utils.CleanInPlace
import Fcitx.Utils.PathForm
import Fcitx.Utils.StandardPath
import Fcitx.Lib.BinarySearch
import Fcitx.Lib.Decimal
import Fcitx.Lib.MergeSort
import Fcitx.Lib.PackedWords
import Fcitx.Lib.TreeWalk
import Fcitx.Utils.KeyNormal
import Fcitx.Utils.KeyNames
import Fcitx.Utils.KeySymName
import Fcitx.Utils.KeySymLookup
import Fcitx.Utils.KeySymChar
import Fcitx.Utils.KeyText
import Fcitx.Utils.DictSort
import Fcitx.Config.Paths
import Fcitx.Config.Options
import Fcitx.Config.ListOption
import Fcitx.Config.I18nOption
import Fcitx.Config.Comments
import Fcitx.Config.Traversal
import Fcitx.Config.Sort
import Fcitx.Utils.PtrArray
import Fcitx.Utils.MsortR
import Fcitx.Lib.Segments
import Fcitx.Xcb.RulesNames
import Fcitx.MainLoop.Prepare
import Fcitx.MainLoop.Combined
import Fcitx.MainLoop.Iterate
import Fcitx.MainLoop.Running
import Fcitx.DBus.WakeUp
import Fcitx.DBus.Watches
import Fcitx.Config.DescriptionCheck
import Fcitx.Utils.ListSort
import Fcitx.Utils.Utf8Walk
import Fcitx.Utils.Utf8Bounded
import Fcitx.Utils.Utf8Compare
import Fcitx.Lib.RollingHash
import Fcitx.Utils.BackwardSearch
import Fcitx.Utils.Trim
import Fcitx.Utils.Escape
import Fcitx.Utils.I18nString
import Fcitx.Lib.LastWrite
import Fcitx.Config.TraversalPaths
import Fcitx.ConfigMerge.Translate
import Fcitx.ConfigMerge.Merge
import Fcitx.Lib.Buffer
import Fcitx.Lib.Fields
import Fcitx.Lib.Reversal
import Fcitx.Utils.Unescape
import Fcitx.Utils.StringList
import Fcitx.Utils.StringMap
import Fcitx.Utils.CatStr
import Fcitx.Core.ErrorHandler
import Fcitx.Utils.CustomBsearch
import Fcitx.Utils.PoolFree
import Fcitx.Utils.PoolWrites
import Fcitx.Xcb.Watchers
import Fcitx.Lib.Chain
import Fcitx.Utils.HashTable
import Fcitx.Utils.HashTableRun
import Fcitx.Utils.HashTableLoad
import Fcitx.Utils.DictTable
import Fcitx.Utils.QsortR
import Fcitx.Utils.MakePath
import Fcitx.Lib.Firsts
import Fcitx.Utils.PathMatch
import Fcitx.Utils.HashSet
import Fcitx.Lib.Rows
import Fcitx.Rules.Merge
import Fcitx.Rules.Files
import Fcitx.Wayland.Registry
import Fcitx.Wayland.Delivery
import Fcitx.Wayland.Init
import Fcitx.Xcb.Connections
import Fcitx.Xcb.ConnectionRun
import Fcitx.Xcb.ConnectionEvents
import Fcitx.Utils.UtArray
import Fcitx.Utils.UtArrayRun
import Fcitx.Config.Color
import Fcitx.Config.OptionFile
import Fcitx.InputContext.Teardown
import Fcitx.Ipc.ObjectBus
import Fcitx.Ipc.FailedCreate
