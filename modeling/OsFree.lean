import OsFree.Lx.PagePlacement
import OsFree.Lx.LoadResult
import OsFree.Handle.Index
import OsFree.Cfg.LineEnds
import OsFree.Cfg.Capacity
import OsFree.Cfg.Getenv
import OsFree.Modmgr.Attach
import OsFree.Modmgr.Link
import OsFree.Modmgr.CopyModule
import OsFree.Kal.SetMem
import OsFree.Exec.NamedArea
import OsFree.Prcmgr.Wakeup
import OsFree.Os2srv.Lifetimes
import OsFree.Os2srv.ExecuteModule
import OsFree.Os2srv.InfoBlocks
import OsFree.Kal.Threads
import OsFree.Os2srv.EventSem
import OsFree.Loader.ModuleLayout
import OsFree.Loader.CommandRuns
import OsFree.Doscalls.MessageFile
import OsFree.Doscalls.TreeMoves
import OsFree.Mkmsgf.MessageSource
import OsFree.Os2fs.FileOpens
import OsFree.Os2fs.Searches
import OsFree.Pm.HabRuns
import OsFree.Pm.GetMsg
import OsFree.Loader.Partitions
import OsFree.Loader.LoopDrive
import OsFree.Loader.FileReads
import OsFree.Mfsd.Reads
import OsFree.Editor.Opened
import OsFree.Pm.HabServer
import OsFree.Pm.ContextRuns
import OsFree.Pm.NPipe
import OsFree.Pm.PipeThreads
import OsFree.Minicmd.ChildEnv
import OsFree.Ufsd.AutoLetter
import OsFree.Compat.FileProv
import OsFree.Os2fs.Sessions
import OsFree.Lx.SourceType
import OsFree.Lx.ModNames
import OsFree.Modmgr.QueryCycle
import OsFree.Kal.AreaSearch
import OsFree.Exec.Sections
import OsFree.Kal.PathNames
import OsFree.Memmgr.Seek
import OsFree.Os2fs.PathParts
import OsFree.Loader.ConfigReads
import OsFree.Doscalls.EditName
import OsFree.Compat.SearchPath
import OsFree.Loader.PreloadSearch
import OsFree.Pm.Reconnect
import OsFree.Loader.DrivePatch
import OsFree.Loader.Sprint
import OsFree.Os2fs.FullName
import OsFree.Loader.Includes
import OsFree.Utlapi.Union
import OsFree.Minicmd.ParseCmd
import OsFree.Ufsd.StartUp
import OsFree.Os2fs.RomSession
